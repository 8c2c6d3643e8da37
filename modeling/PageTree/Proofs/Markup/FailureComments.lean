/-
  PageTree/Proofs/Markup/FailureComments.lean
  ===========================================
  **The comment that stands for a failed component.**

  A reader of markup takes a comment to end at the first `-->`, and at `--!>` if that
  comes first.  In the comment for a failed component the name of the component and the
  message are written with the first two of adjacent hyphens separated, pair by pair
  from the left.  Of a run of hyphens of even length the last one is separated from the
  one before it, but the last of an odd run is left with the second hyphen of the last
  pair: they end the comment if `>` or `!>` follows, unless the run is a single hyphen.

    * `Escape.infix_partHyphens_iff`: what is left with two hyphens in front of it;
    * `Text.cutAt_append_self_iff`: a text that is cut at its end only;
    * `MarkupWriter.failure_comment_whole_iff`: where the comment for a failure ends.
-/
import Mathlib
import PageTree.Markup.Fragments

namespace PageTree

/-! ### Words in a text -/

section

variable {α : Type}

/-- A word that is nowhere broken by a separator stands on one side of it. -/
theorem infix_append_cons_iff {word s t : List α} {c : α} (unbroken : c ∉ word) :
    word <:+: s ++ c :: t ↔ word <:+: s ∨ word <:+: t := by
  constructor
  · rintro ⟨before, after, same⟩
    rw [List.append_assoc] at same
    rcases List.append_eq_append_iff.1 same with ⟨u, rfl, rest⟩ | ⟨u, rfl, rest⟩
    · rcases List.append_eq_append_iff.1 rest with ⟨v, rfl, -⟩ | ⟨v, rfl, cut⟩
      · exact .inl ⟨before, v, by simp⟩
      · cases v with
        | nil => exact .inl ⟨before, [], by simp⟩
        | cons d v =>
          obtain ⟨rfl, -⟩ := List.cons.inj cut
          simp at unbroken
    · cases u with
      | nil =>
        cases word with
        | nil => exact .inl List.nil_infix
        | cons d word =>
          obtain ⟨rfl, -⟩ := List.cons.inj rest
          simp at unbroken
      | cons d u =>
        obtain ⟨-, rfl⟩ := List.cons.inj rest
        exact .inr ⟨u, after, by simp⟩
  · rintro (inside | inside)
    · exact inside.trans (List.prefix_append s _).isInfix
    · exact inside.trans ((List.suffix_cons c t).trans (List.suffix_append s _)).isInfix

end

namespace Text

/-- A text is cut at its end if the word does not begin earlier. -/
theorem cutAt_append_self_iff {word : List Char} (nonempty : word ≠ []) (s : List Char) :
    cutAt word (s ++ word) = some (s, []) ↔ ¬ word <:+: s ++ word.dropLast := by
  have short : ¬ word <:+: word.dropLast := by
    intro inside
    have := inside.length_le
    have := List.length_pos_of_ne_nil nonempty
    rw [List.length_dropLast] at *
    omega
  obtain ⟨d, ds, shape⟩ := List.exists_cons_of_ne_nil nonempty
  induction s with
  | nil =>
    have whole : dropWord word word = some [] := dropWord_eq_some_iff.2 (by simp)
    rw [shape] at whole
    simp only [List.nil_append, short, not_false_eq_true, iff_true]
    rw [shape, cutAt, whole]
  | cons c s ih =>
    have within : c :: (s ++ word.dropLast) <+: c :: (s ++ word) :=
      List.cons_prefix_cons.2 ⟨rfl, (List.prefix_append_right_inj s).2 (List.dropLast_prefix word)⟩
    rw [List.cons_append, List.cons_append, List.infix_cons_iff, not_or, cutAt]
    cases found : dropWord word (c :: (s ++ word)) with
    | some rest =>
      have front : word <+: (c :: (s ++ word)) := ⟨rest, (dropWord_eq_some_iff.1 found).symm⟩
      have early : word <+: c :: (s ++ word.dropLast) := by
        refine List.prefix_of_prefix_length_le front within ?_
        have := List.length_pos_of_ne_nil nonempty
        simp only [List.length_cons, List.length_append, List.length_dropLast]
        omega
      simp [early]
    | none =>
      have later : ¬ word <+: c :: (s ++ word.dropLast) := by
        intro early
        obtain ⟨rest, same⟩ := early.trans within
        cases found.symm.trans (dropWord_eq_some_iff.2 same.symm)
      simp [later, ih]

end Text

/-! ### Hyphens -/

namespace Escape

/-- Right before `stop` stands a run of hyphens of odd length, at least three. -/
def OddRun (stop s : List Char) : Prop :=
  ∃ before n after, s = before ++ List.replicate n '-' ++ stop ++ after ∧
    before.getLast? ≠ some '-' ∧ Odd n ∧ 3 ≤ n

variable {stop s : List Char}

theorem partHyphens_pair (cs : List Char) :
    partHyphens ('-' :: '-' :: cs) = '-' :: ' ' :: '-' :: partHyphens cs := rfl

theorem partHyphens_single {c : Char} {cs : List Char} (single : c = '-' → ∀ ds, cs ≠ '-' :: ds) :
    partHyphens (c :: cs) = c :: partHyphens cs :=
  partHyphens.eq_2 c cs fun ds hyphen same => single hyphen ds same

/-- The first character stays. -/
theorem exists_partHyphens_cons (c : Char) (cs : List Char) :
    ∃ rest, partHyphens (c :: cs) = c :: rest := by
  by_cases pair : c = '-' ∧ ∃ ds, cs = '-' :: ds
  · obtain ⟨rfl, ds, rfl⟩ := pair
    exact ⟨_, rfl⟩
  · exact ⟨_, partHyphens_single fun hyphen ds same => pair ⟨hyphen, ds, same⟩⟩

/-- A word without hyphens stays at the front, and none comes there. -/
theorem prefix_partHyphens_iff (plain : '-' ∉ stop) : stop <+: partHyphens s ↔ stop <+: s := by
  induction stop generalizing s with
  | nil => simp
  | cons d ds ih =>
    rw [List.mem_cons, not_or] at plain
    cases s with
    | nil => simp [partHyphens]
    | cons c cs =>
      by_cases same : d = c
      · subst same
        rw [partHyphens_single fun hyphen => absurd hyphen.symm plain.1, List.cons_prefix_cons,
          List.cons_prefix_cons, ih plain.2]
      · obtain ⟨rest, first⟩ := exists_partHyphens_cons c cs
        simp [first, List.cons_prefix_cons, same]

theorem hyphen_prefix_partHyphens_iff (plain : '-' ∉ stop) (first : stop.head?.any (· ≠ ' ')) :
    '-' :: stop <+: partHyphens s ↔ '-' :: stop <+: s := by
  have nonempty : stop ≠ [] := by
    rintro rfl
    cases first
  obtain ⟨d, ds, rfl⟩ := List.exists_cons_of_ne_nil nonempty
  cases s with
  | nil => simp [partHyphens]
  | cons c cs =>
    by_cases pair : c = '-' ∧ ∃ ds, cs = '-' :: ds
    · obtain ⟨rfl, cs, rfl⟩ := pair
      simp_all [partHyphens_pair, List.cons_prefix_cons, Ne.symm]
    · rw [partHyphens_single fun hyphen ds same => pair ⟨hyphen, ds, same⟩, List.cons_prefix_cons,
        List.cons_prefix_cons, prefix_partHyphens_iff plain]

/-! ### Runs of odd length -/

theorem OddRun.mem (h : OddRun stop s) : '-' ∈ s := by
  obtain ⟨before, n, after, rfl, -, -, long⟩ := h
  simp
  omega

/-- Of a longer run two hyphens may be left out in front. -/
theorem oddRun_pair {cs : List Char} :
    OddRun stop ('-' :: '-' :: cs) ↔ '-' :: stop <+: cs ∨ OddRun stop cs := by
  constructor
  · rintro ⟨before, n, after, same, ends, odd, long⟩
    cases before with
    | nil =>
      -- the run begins here
      obtain ⟨n, rfl⟩ : ∃ m, n = m + 3 := ⟨n - 3, by omega⟩
      simp only [List.replicate_succ, List.nil_append, List.cons_append, List.cons.injEq,
        true_and] at same
      cases n with
      | zero => exact .inl ⟨after, by simpa using same.symm⟩
      | succ n =>
        refine .inr ⟨[], n + 2, after, ?_, by simp, ?_, ?_⟩
        · simpa [List.replicate_succ] using same
        · grind
        · grind
    | cons c before =>
      simp only [List.cons_append, List.cons.injEq] at same
      obtain ⟨rfl, same⟩ := same
      -- the second hyphen stands in front of the run too, and does not end what is there
      cases before with
      | nil => simp at ends
      | cons d before =>
        simp only [List.cons_append, List.cons.injEq] at same
        obtain ⟨rfl, same⟩ := same
        cases before with
        | nil => simp at ends
        | cons d before => exact .inr ⟨d :: before, n, after, same, by simpa using ends, odd, long⟩
  · rintro (⟨after, rfl⟩ | ⟨before, n, after, rfl, ends, odd, long⟩)
    · exact ⟨[], 3, after, rfl, by simp, by decide, by decide⟩
    · cases before with
      | nil => exact ⟨[], n + 2, after, by simp [List.replicate_succ], by simp, by grind, by omega⟩
      | cons c before =>
        exact ⟨'-' :: '-' :: c :: before, n, after, rfl, by simpa using ends, odd, long⟩

/-- A single hyphen is part of no longer run. -/
theorem oddRun_single {c : Char} {cs : List Char} (single : c = '-' → ∀ ds, cs ≠ '-' :: ds) :
    OddRun stop (c :: cs) ↔ OddRun stop cs := by
  constructor
  · rintro ⟨before, n, after, same, ends, odd, long⟩
    cases before with
    | nil =>
      obtain ⟨n, rfl⟩ : ∃ m, n = m + 2 := ⟨n - 2, by omega⟩
      simp only [List.replicate_succ, List.nil_append, List.cons_append, List.cons.injEq] at same
      exact absurd same.2 (single same.1 _)
    | cons d before =>
      obtain ⟨rfl, rfl⟩ := List.cons.inj same
      refine ⟨before, n, after, rfl, ?_, odd, long⟩
      cases before with
      | nil => simp
      | cons d before => simpa using ends
  · rintro ⟨before, n, after, rfl, ends, odd, long⟩
    refine ⟨c :: before, n, after, rfl, ?_, odd, long⟩
    cases before with
    | nil =>
      obtain ⟨n, rfl⟩ : ∃ m, n = m + 1 := ⟨n - 1, by omega⟩
      have other : c ≠ '-' := fun hyphen => single hyphen _ rfl
      simpa using other
    | cons d before => simpa using ends

/-- Two hyphens are left in front of a word exactly where a run of hyphens of odd length,
    at least three, stands in front of it.  By induction on the pairs. -/
theorem infix_partHyphens_iff (plain : '-' ∉ stop) (first : stop.head?.any (· ≠ ' ')) :
    '-' :: '-' :: stop <:+: partHyphens s ↔ OddRun stop s := by
  induction s using partHyphens.induct with
  | case1 cs ih =>
    rw [partHyphens_pair, oddRun_pair, ← ih, ← hyphen_prefix_partHyphens_iff plain first]
    simp [List.infix_cons_iff, List.cons_prefix_cons]
  | case2 c cs single ih =>
    have single' : c = '-' → ∀ ds, cs ≠ '-' :: ds := fun hyphen ds same => single ds hyphen same
    rw [partHyphens_single single', oddRun_single single', ← ih, List.infix_cons_iff,
      List.cons_prefix_cons]
    refine or_iff_right fun ⟨hyphen, next⟩ => ?_
    obtain ⟨rest, same⟩ := (hyphen_prefix_partHyphens_iff plain first).1 next
    exact single' hyphen.symm _ same.symm
  | case3 =>
    refine iff_of_false ?_ fun run => ?_
    · simp [partHyphens]
    · cases run.mem

theorem partHyphens_append_cons {c : Char} (other : c ≠ '-') (s t : List Char) :
    partHyphens (s ++ c :: t) = partHyphens s ++ c :: partHyphens t := by
  induction s using partHyphens.induct with
  | case1 cs ih =>
    rw [List.cons_append, List.cons_append, partHyphens_pair, ih]
    rfl
  | case2 d cs single ih =>
    have still : d = '-' → ∀ ds, cs ++ c :: t ≠ '-' :: ds := by
      intro hyphen ds same
      cases cs with
      | nil => exact other (List.cons.inj same).1
      | cons e cs => exact single cs hyphen (congrArg (· :: cs) (List.cons.inj same).1)
    rw [List.cons_append, partHyphens_single still, ih,
      partHyphens_single fun hyphen ds same => single ds hyphen same]
    rfl
  | case3 => exact partHyphens_single fun hyphen => absurd hyphen other

/-- A run of hyphens does not reach across another character. -/
theorem oddRun_append_cons_iff (plain : '-' ∉ stop) (first : stop.head?.any (· ≠ ' ')) {c : Char}
    (other : c ≠ '-') (apart : c ∉ stop) {s t : List Char} :
    OddRun stop (s ++ c :: t) ↔ OddRun stop s ∨ OddRun stop t := by
  rw [← infix_partHyphens_iff plain first, ← infix_partHyphens_iff plain first,
    ← infix_partHyphens_iff plain first, partHyphens_append_cons other]
  exact infix_append_cons_iff (by simp [other, apart])

/-- Hyphens in what is reported for a failure come from its name and its message. -/
theorem oddRun_failureText_iff (plain : '-' ∉ stop) (first : stop.head?.any (· ≠ ' '))
    (unquoted : '`' ∉ stop) (unbroken : ' ' ∉ stop) (name message : String) :
    OddRun stop (Node.failureText name message).toList ↔
      OddRun stop name.toList ∨ OddRun stop message.toList := by
  have shape : (Node.failureText name message).toList = "component ".toList ++ '`' ::
      (name.toList ++ '`' :: (" failed:".toList ++ ' ' :: message.toList)) := by
    simp [Node.failureText]
  have before : ¬ OddRun stop "component ".toList := fun run => absurd run.mem (by decide)
  have between : ¬ OddRun stop " failed:".toList := fun run => absurd run.mem (by decide)
  rw [shape, oddRun_append_cons_iff plain first (by decide) unquoted,
    oddRun_append_cons_iff plain first (by decide) unquoted,
    oddRun_append_cons_iff plain first (by decide) unbroken, or_iff_right before,
    or_iff_right between]

theorem infix_comment_iff (plain : '-' ∉ stop) (first : stop.head?.any (· ≠ ' ')) (s : String) :
    '-' :: '-' :: stop <:+: (comment s).toList ↔ OddRun stop s.toList := by
  rw [comment, String.toList_ofList, infix_partHyphens_iff plain first]

end Escape

/-! ### The comment for a failure -/

namespace MarkupWriter

open Escape

/-- What the comment for a failed component holds. -/
def failureNote (name message : String) : String :=
  " " ++ Escape.comment (Node.failureText name message) ++ " "

theorem failureComment_eq (name message : String) :
    failureComment name message = "<!--" ++ failureNote name message ++ "-->" := by
  rw [failureComment, failureNote, ← String.toList_inj]
  simp

/-- A word that is in the comment, up to a text that follows it. -/
theorem infix_failureNote_iff {stop : List Char} (plain : '-' ∉ stop)
    (first : stop.head?.any (· ≠ ' ')) (unquoted : '`' ∉ stop) (unbroken : ' ' ∉ stop)
    {rest : List Char} (absent : ¬ '-' :: '-' :: stop <:+: rest) (name message : String) :
    '-' :: '-' :: stop <:+: (failureNote name message).toList ++ rest ↔
      OddRun stop name.toList ∨ OddRun stop message.toList := by
  have shape : (failureNote name message).toList ++ rest
      = [] ++ ' ' :: ((Escape.comment (Node.failureText name message)).toList ++ ' ' :: rest) := by
    simp [failureNote]
  have apart : ' ' ∉ '-' :: '-' :: stop := by simp [unbroken]
  rw [shape, infix_append_cons_iff apart, infix_append_cons_iff apart,
    infix_comment_iff plain first, oddRun_failureText_iff plain first unquoted unbroken]
  simp [absent]

/-- **Where the comment for a failed component ends.**  Wherever it fails, the component
    is written as one fragment, `<!--`, a note and `-->`.  The first `-->` after the
    opening is that at the very end if and only if neither the name nor the message has a
    run of hyphens of odd length, at least three, in front of `>`; and there is a `--!>`,
    with which comments end as well, exactly if one of them has such a run in front of
    `!>`.  A text for a comment has a `-->` exactly if it had such a run. -/
theorem failure_comment_whole_iff (w : MarkupWriter)
    (scripts : List Node → Nat → List String × Nat) (name : String) (attrs : Attributes)
    (children : List Node) (message : String) (k : Nat) :
    w.fragments scripts (.failure name attrs children message) k
        = (["<!--" ++ failureNote name message ++ "-->"], k) ∧
      (Text.cutAt "-->".toList ((failureNote name message).toList ++ "-->".toList)
          = some ((failureNote name message).toList, []) ↔
        ¬ OddRun ">".toList name.toList ∧ ¬ OddRun ">".toList message.toList) ∧
      ("--!>".toList <:+: (failureNote name message).toList ++ "-->".toList ↔
        OddRun "!>".toList name.toList ∨ OddRun "!>".toList message.toList) ∧
      ∀ s : String, "-->".toList <:+: (Escape.comment s).toList ↔ OddRun ">".toList s.toList := by
  refine ⟨?_, ?_, ?_, fun s => infix_comment_iff (by decide) (by decide) s⟩
  · rw [fragments, failureComment_eq]
  · rw [Text.cutAt_append_self_iff (by decide), ← not_or]
    exact not_congr (infix_failureNote_iff (by decide) (by decide) (by decide) (by decide)
      (by decide) name message)
  · exact infix_failureNote_iff (by decide) (by decide) (by decide) (by decide) (by decide)
      name message

/-- The comment ends inside of the message. -/
theorem arrow_ends_comment :
    Text.cutAt "-->".toList ((failureNote "Card" "--->").toList ++ "-->".toList)
        = some (" component `Card` failed: - ".toList, " -->".toList) ∧
      "-->".toList <:+: (Escape.comment "--->").toList := by
  decide +kernel

end MarkupWriter

end PageTree
