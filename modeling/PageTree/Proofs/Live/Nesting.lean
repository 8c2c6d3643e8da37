/-
  PageTree/Proofs/Live/Nesting.lean
  =================================
  **Elements nested in elements.**

  A document finds out whether an element is nested in another one by walking
  outwards, and it takes no more steps than there are elements.  That is enough:
  a shortest way outwards meets no element twice, and every element it leaves is
  one of the document (`isNestedIn_iff`).
-/
import Mathlib
import PageTree.Live.Document

namespace PageTree.Live

namespace Document

/-- The element is nested in another one, at some depth. -/
def Within (d : Document) (id outer : String) : Prop :=
  Relation.TransGen (fun e p => d.parent? e = some p) id outer

/-- The element that many steps further out. -/
def above (d : Document) : Nat → String → Option String
  | 0, id => some id
  | steps + 1, id => (d.parent? id).bind (above d steps)

theorem above_add (d : Document) (m n : Nat) (id : String) :
    d.above (m + n) id = (d.above m id).bind (d.above n) := by
  induction m generalizing id with
  | zero => simp [above]
  | succ m ih =>
    rw [Nat.succ_add, above, above]
    cases d.parent? id with
    | none => rfl
    | some p => exact ih p

theorem mem_enclosing_iff {d : Document} {steps : Nat} {id outer : String} :
    outer ∈ d.enclosing steps id ↔ ∃ n < steps, d.above (n + 1) id = some outer := by
  induction steps generalizing id with
  | zero => simp [enclosing]
  | succ steps ih =>
    rw [enclosing]
    cases hp : d.parent? id with
    | none => simp [above, hp]
    | some p =>
      rw [List.mem_cons, ih]
      constructor
      · rintro (rfl | ⟨n, hn, found⟩)
        · exact ⟨0, Nat.succ_pos _, by simp [above, hp]⟩
        · refine ⟨n + 1, Nat.succ_lt_succ hn, ?_⟩
          rw [above, hp]
          exact found
      · rintro ⟨n, hn, found⟩
        rw [above, hp] at found
        cases n with
        | zero =>
          left
          simpa [above] using found.symm
        | succ n => exact .inr ⟨n, Nat.lt_of_succ_lt_succ hn, found⟩

theorem within_iff_above {d : Document} {id outer : String} :
    d.Within id outer ↔ ∃ n, d.above (n + 1) id = some outer := by
  constructor
  · intro within
    induction within using Relation.TransGen.head_induction_on with
    | single h => exact ⟨0, by simp [above, h]⟩
    | head h _ ih =>
      obtain ⟨n, found⟩ := ih
      refine ⟨n + 1, ?_⟩
      rw [above, h]
      exact found
  · rintro ⟨n, found⟩
    induction n generalizing id with
    | zero =>
      refine .single ?_
      simpa [above] using found
    | succ n ih =>
      rw [above] at found
      obtain ⟨p, hp, found⟩ := Option.bind_eq_some_iff.1 found
      exact .head hp (ih found)

theorem mem_keys_of_parent? {d : Document} {id p : String} (h : d.parent? id = some p) :
    id ∈ d.elements.keys := by
  obtain ⟨e, found, _⟩ := Option.bind_eq_some_iff.1 h
  exact List.mem_map.2 ⟨_, OrderedMap.mem_of_get? found, rfl⟩

/-- If an element can be reached at all, it can be reached in no more steps than
    there are elements. -/
theorem above_le_size {d : Document} {id outer : String} {n : Nat}
    (found : d.above (n + 1) id = some outer) :
    ∃ m < d.elements.size, d.above (m + 1) id = some outer := by
  classical
  -- take the shortest way; the elements it leaves are all different
  let reaches (m : Nat) : Prop := d.above (m + 1) id = some outer
  have exists_way : ∃ m, reaches m := ⟨n, found⟩
  have way : d.above (Nat.find exists_way + 1) id = some outer := Nat.find_spec exists_way
  have shortest (m : Nat) (h : reaches m) : Nat.find exists_way ≤ m := Nat.find_min' exists_way h
  generalize Nat.find exists_way = m at way shortest
  refine ⟨m, ?_, way⟩
  have left (k : Nat) (hk : k ≤ m) : ∃ e, d.above k id = some e ∧ e ∈ d.elements.keys := by
    have split := d.above_add k (m - k + 1) id
    rw [show k + (m - k + 1) = m + 1 by omega, way] at split
    obtain ⟨e, he, rest⟩ := Option.bind_eq_some_iff.1 split.symm
    rw [above] at rest
    obtain ⟨p, hp, _⟩ := Option.bind_eq_some_iff.1 rest
    exact ⟨e, he, mem_keys_of_parent? hp⟩
  choose! e he inside using left
  have distinct : Set.InjOn e (Finset.range (m + 1) : Set Nat) := by
    have apart (i j : Nat) (hij : i < j) (hj : j ≤ m) : e i ≠ e j := by
      intro same
      -- cutting out the loop gives a shorter way
      have tail := d.above_add j (m - j + 1) id
      rw [show j + (m - j + 1) = m + 1 by omega, way, he j hj, ← same] at tail
      have short := d.above_add i (m - j + 1) id
      rw [he i (by omega), ← tail] at short
      have bound := shortest (i + (m - j)) short
      omega
    intro i hi j hj same
    have hi : i ≤ m := by simpa [Nat.lt_succ_iff] using hi
    have hj : j ≤ m := by simpa [Nat.lt_succ_iff] using hj
    rcases lt_trichotomy i j with lt | eq | gt
    · exact absurd same (apart i j lt hj)
    · exact eq
    · exact absurd same.symm (apart j i gt hi)
  have subset : (Finset.range (m + 1)).image e ⊆ d.elements.keys.toFinset := by
    intro x hx
    obtain ⟨k, hk, rfl⟩ := Finset.mem_image.1 hx
    exact List.mem_toFinset.2 (inside k (by simpa [Nat.lt_succ_iff] using hk))
  have bound := (Finset.card_le_card subset).trans (List.toFinset_card_le _)
  rw [Finset.card_image_of_injOn distinct, Finset.card_range] at bound
  simpa [OrderedMap.keys, OrderedMap.size] using bound

theorem isNestedIn_iff {d : Document} {id outer : String} :
    d.isNestedIn id outer = true ↔ d.Within id outer := by
  rw [isNestedIn, List.contains_iff_mem, ancestors, mem_enclosing_iff, within_iff_above]
  constructor
  · rintro ⟨n, _, found⟩
    exact ⟨n, found⟩
  · rintro ⟨n, found⟩
    exact above_le_size found

theorem Within.mem_keys {d : Document} {id outer : String} (h : d.Within id outer) :
    id ∈ d.elements.keys := by
  obtain ⟨p, hp, _⟩ := Relation.TransGen.head'_iff.1 h
  exact mem_keys_of_parent? hp

theorem mem_descendants {d : Document} {id e : String} :
    e ∈ d.descendants id ↔ d.Within e id := by
  rw [descendants, sortIds, (List.mergeSort_perm _ _).mem_iff, List.mem_filter, isNestedIn_iff]
  exact ⟨And.right, fun h => ⟨h.mem_keys, h⟩⟩

end Document

end PageTree.Live
