/-
  PageTree/Proofs/Json/Fields.lean
  ================================
  **The fields of an object.**

  An object keeps its fields sorted by name, without repetition, however they were
  put in.

    * `pairwise_sortFields`: the names ascend;
    * `mem_sortFields`: no field of distinct names is lost, and none is added.
-/
import Mathlib
import PageTree.Json.Basic

namespace PageTree.Json

variable {α : Type}

/-- The names of fields ascend. -/
def Ascending (fs : List (String × α)) : Prop := fs.Pairwise fun f g => f.1 < g.1

theorem mem_insertField {name : String} {value : α} {fs : List (String × α)} (h : Ascending fs)
    {f : String × α} :
    f ∈ insertField name value fs ↔ f = (name, value) ∨ f ∈ fs ∧ f.1 ≠ name := by
  induction fs with
  | nil => simp [insertField]
  | cons g fs ih =>
    obtain ⟨n, v⟩ := g
    obtain ⟨behind, rest⟩ := List.pairwise_cons.1 h
    rw [insertField]
    by_cases same : name = n
    · subst same
      have others : ∀ f ∈ fs, f.1 ≠ name := fun f mem => (behind f mem).ne'
      rw [beq_self_eq_true, if_pos rfl, List.mem_cons, List.mem_cons]
      constructor
      · rintro (rfl | later)
        · exact .inl rfl
        · exact .inr ⟨.inr later, others f later⟩
      · rintro (rfl | ⟨rfl | later, other⟩)
        · exact .inl rfl
        · exact absurd rfl other
        · exact .inr later
    · rw [beq_false_of_ne same, if_neg Bool.false_ne_true]
      by_cases lt : name < n
      · have others : ∀ f ∈ (n, v) :: fs, f.1 ≠ name := by
          intro f mem
          rcases List.mem_cons.1 mem with rfl | later
          · exact lt.ne'
          · exact (lt.trans (behind f later)).ne'
        rw [if_pos lt, List.mem_cons]
        exact or_congr_right ⟨fun mem => ⟨mem, others f mem⟩, And.left⟩
      · rw [if_neg lt, List.mem_cons, ih rest, List.mem_cons]
        constructor
        · rintro (rfl | rfl | ⟨later, other⟩)
          · exact .inr ⟨.inl rfl, Ne.symm same⟩
          · exact .inl rfl
          · exact .inr ⟨.inr later, other⟩
        · rintro (rfl | ⟨rfl | later, other⟩)
          · exact .inr (.inl rfl)
          · exact .inl rfl
          · exact .inr (.inr ⟨later, other⟩)

theorem ascending_insertField {fs : List (String × α)} (h : Ascending fs) (name : String)
    (value : α) : Ascending (insertField name value fs) := by
  induction fs with
  | nil => exact List.pairwise_singleton _ _
  | cons g fs ih =>
    obtain ⟨n, v⟩ := g
    obtain ⟨behind, rest⟩ := List.pairwise_cons.1 h
    rw [insertField]
    split
    · next same =>
      obtain rfl := eq_of_beq same
      exact List.pairwise_cons.2 ⟨behind, rest⟩
    · next other =>
      have other : name ≠ n := by simpa using other
      split
      · next lt =>
        refine List.pairwise_cons.2 ⟨fun f mem => ?_, h⟩
        rcases List.mem_cons.1 mem with rfl | later
        · exact lt
        · exact lt.trans (behind f later)
      · next notLt =>
        refine List.pairwise_cons.2 ⟨fun f mem => ?_, ih rest⟩
        rcases (mem_insertField rest).1 mem with rfl | ⟨later, _⟩
        · exact lt_of_le_of_ne (not_lt.1 notLt) (Ne.symm other)
        · exact behind f later

theorem ascending_sortFields (fields : List (String × α)) : Ascending (sortFields fields) := by
  rw [sortFields]
  refine List.foldlRecOn fields _ List.Pairwise.nil ?_
  intro fs ascending f _
  exact ascending_insertField ascending f.1 f.2

theorem mem_sortFields {fields : List (String × α)} (distinct : (fields.map (·.1)).Nodup)
    {f : String × α} : f ∈ sortFields fields ↔ f ∈ fields := by
  induction fields using List.reverseRecOn with
  | nil => rfl
  | append_singleton fields g ih =>
    rw [List.map_append, List.nodup_append] at distinct
    obtain ⟨distinct, _, apart⟩ := distinct
    have others (f : String × α) (mem : f ∈ fields) : f.1 ≠ g.1 :=
      apart f.1 (List.mem_map_of_mem mem) g.1 (by simp)
    have last : sortFields (fields ++ [g]) = insertField g.1 g.2 (sortFields fields) := by
      simp [sortFields]
    rw [last, mem_insertField (ascending_sortFields fields), ih distinct, List.mem_append,
      List.mem_singleton, or_comm]
    exact or_congr_left ⟨And.left, fun mem => ⟨mem, others f mem⟩⟩

end PageTree.Json
