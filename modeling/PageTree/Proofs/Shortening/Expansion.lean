/-
  PageTree/Proofs/Shortening/Expansion.lean
  =========================================
  **Shortening loses nothing.**

  In shortened code every access through a table can be written out again.  It is
  recognised by its dollar sign and brackets, which neither what is kept nor two
  neighbouring pieces can make up, as long as the code itself contains no access
  through a table.

    * `expand_outcomes`: writing out finds exactly the accesses;
    * `expand_body`: the code after the declaration of the tables, written out, is
      the code that was shortened;
    * `shorten_lossless`: the same for the whole of the shortened code.
-/
import Mathlib
import PageTree.Proofs.Shortening.Passes

namespace PageTree.NameTable

open Text Compaction
open Glyph (chars char?)

/-! ### Writing accesses out -/

/-- All accesses through the tables. -/
def accesses : List Access :=
  (List.finRange members.length).map .member ++ (List.finRange globals.length).map .global

/-- An access through a table at the front of a text. -/
def indexedAccess : Recogniser Access := fun _ s =>
  accesses.findSome? fun a => (dropWord a.text s).map fun _ => (a, a.text.length)

/-- Replaces every access through a table by what it stands for: an index into the
    members by a dot and the member, an index into the globals by the global. -/
def expand (s : List Char) : List Char := substitute indexedAccess Access.name s

theorem blind_indexedAccess : indexedAccess.Blind := fun _ _ => rfl

theorem mem_accesses (a : Access) : a ∈ accesses := by
  cases a <;> simp [accesses]

/-- No access begins like another one. -/
theorem eq_of_text_isPrefix {a b : Access} (h : a.text <+: b.text) : a = b := by
  have apart : ∀ a ∈ accesses, ∀ b ∈ accesses, a.text.isPrefixOf b.text = true → a = b := by
    decide +kernel
  exact apart a (mem_accesses a) b (mem_accesses b) (List.isPrefixOf_iff_prefix.2 h)

theorem indexedAccess_eq_some_iff {s : List Char} {a : Access} {n : Nat} :
    indexedAccess none s = some (a, n) ↔ n = a.text.length ∧ a.text <+: s := by
  constructor
  · intro found
    obtain ⟨b, _, here⟩ := List.exists_of_findSome?_eq_some found
    obtain ⟨rest, starts, same⟩ := Option.map_eq_some_iff.1 here
    obtain ⟨rfl, rfl⟩ := Prod.mk.inj same
    exact ⟨rfl, rest, (dropWord_eq_some_iff.1 starts).symm⟩
  · rintro ⟨rfl, rest, rfl⟩
    have starts : dropWord a.text (a.text ++ rest) = some rest := dropWord_eq_some_iff.2 rfl
    cases found : indexedAccess none (a.text ++ rest) with
    | none =>
      have miss := List.findSome?_eq_none_iff.1 found a (mem_accesses a)
      simp [starts] at miss
    | some hit =>
      obtain ⟨b, _, here⟩ := List.exists_of_findSome?_eq_some found
      obtain ⟨rest', starts', rfl⟩ := Option.map_eq_some_iff.1 here
      have prefixes : b.text <+: a.text ++ rest := ⟨rest', (dropWord_eq_some_iff.1 starts').symm⟩
      have same : b = a := by
        rcases List.prefix_or_prefix_of_prefix prefixes (List.prefix_append a.text rest) with
          within | within
        · exact eq_of_text_isPrefix within
        · exact (eq_of_text_isPrefix within).symm
      rw [same]

/-! ### What was written -/

/-- The text that is written for uses. -/
def outcomes (us : List (Use Char)) : List Char := us.flatMap (Use.outcome ([·]))

theorem exists_digits (n : Nat) : ∃ d ds, Nat.toDigits 10 n = d :: ds ∧ d.isDigit = true := by
  obtain ⟨d, ds, same⟩ := List.exists_cons_of_ne_nil (Nat.toDigits_ne_nil (b := 10) (n := n))
  refine ⟨d, ds, same, Nat.isDigit_of_mem_toDigits (b := 10) (n := n) (by decide) (by decide) ?_⟩
  simp [same]

/-- What is written begins with a character that is kept, or with an access. -/
theorem outcomes_eq_cons {us : List (Use Char)} {c : Char} {t : List Char}
    (h : outcomes us = c :: t) :
    (∃ vs, us = .kept c :: vs ∧ outcomes vs = t) ∨ (c = '[' ∧ t.head? = some '$') ∨
      (c = '$' ∧ t.head? = some 'g') := by
  cases us with
  | nil => cases h
  | cons u vs =>
    cases u with
    | kept x =>
      obtain ⟨rfl, rest⟩ := List.cons.inj h
      exact .inl ⟨vs, rfl, rest⟩
    | access a =>
      cases a with
      | member i =>
        obtain ⟨opens, rest⟩ := List.cons.inj h
        exact .inr (.inl ⟨opens.symm, by rw [← rest]; rfl⟩)
      | global i =>
        obtain ⟨opens, rest⟩ := List.cons.inj h
        exact .inr (.inr ⟨opens.symm, by rw [← rest]; rfl⟩)

/-- An index in brackets after a dollar sign and the letter of a table is written
    only if the source has the bracket there. -/
theorem kept_of_outcomes {us : List (Use Char)} {letter : Char} {n : Nat} {t : List Char}
    (notDollar : letter ≠ '$') (notBracket : letter ≠ '[')
    (h : outcomes us = letter :: '[' :: (Nat.toDigits 10 n ++ t)) :
    ∃ vs, us = .kept letter :: .kept '[' :: vs := by
  rcases outcomes_eq_cons h with ⟨vs, rfl, rest⟩ | ⟨bracket, _⟩ | ⟨dollar, _⟩
  · rcases outcomes_eq_cons rest with ⟨ws, rfl, _⟩ | ⟨_, dollar⟩ | ⟨dollar, _⟩
    · exact ⟨ws, rfl⟩
    · -- an access to a member has a dollar sign where the index would begin
      obtain ⟨d, ds, digits, isDigit⟩ := exists_digits n
      rw [digits] at dollar
      obtain rfl : d = '$' := by simpa using dollar
      exact absurd isDigit (by decide)
    · exact absurd dollar (by decide)
  · exact absurd bracket notBracket
  · exact absurd dollar notDollar

/-- At a character that is kept no access begins. -/
theorem indexedAccess_kept {c : Char} {us : List (Use Char)}
    (noGlobals : ¬ "$g[".toList <:+: (Use.kept c :: us).flatMap Use.source)
    (noMembers : ¬ "$m[".toList <:+: (Use.kept c :: us).flatMap Use.source) :
    indexedAccess none (c :: outcomes us) = none := by
  rw [Option.eq_none_iff_forall_ne_some]
  rintro ⟨a, n⟩ found
  obtain ⟨_, t, split⟩ := indexedAccess_eq_some_iff.1 found
  cases a with
  | global i =>
    obtain ⟨rfl, rest⟩ := List.cons.inj split
    have written : outcomes us = 'g' :: '[' :: (Nat.toDigits 10 i.val ++ (']' :: t)) := by
      rw [← rest]
      simp
    obtain ⟨vs, rfl⟩ := kept_of_outcomes (by decide) (by decide) written
    exact noGlobals ⟨[], vs.flatMap Use.source, rfl⟩
  | member i =>
    obtain ⟨rfl, rest⟩ := List.cons.inj split
    have written : outcomes us
        = '$' :: 'm' :: '[' :: (Nat.toDigits 10 i.val ++ (']' :: ']' :: t)) := by
      rw [← rest]
      simp [indexed]
    rcases outcomes_eq_cons written with ⟨vs, rfl, after⟩ | ⟨bracket, _⟩ | ⟨_, letter⟩
    · obtain ⟨ws, rfl⟩ := kept_of_outcomes (by decide) (by decide) after
      exact noMembers ⟨['['], ws.flatMap Use.source, rfl⟩
    · exact absurd bracket (by decide)
    · simp at letter

/-- Writing the accesses out gives back the source. -/
theorem expand_outcomes {us : List (Use Char)}
    (noGlobals : ¬ "$g[".toList <:+: us.flatMap Use.source)
    (noMembers : ¬ "$m[".toList <:+: us.flatMap Use.source) :
    expand (outcomes us) = us.flatMap Use.source := by
  induction us with
  | nil => rfl
  | cons u us ih =>
    have suffix : us.flatMap Use.source <:+: (u :: us).flatMap Use.source :=
      (List.suffix_append _ _).isInfix
    have onward := ih (fun h => noGlobals (h.trans suffix)) fun h => noMembers (h.trans suffix)
    rw [expand, substitute] at onward ⊢
    cases u with
    | kept c =>
      have miss := indexedAccess_kept noGlobals noMembers
      change (scan indexedAccess (c :: outcomes us)).flatMap _ = c :: us.flatMap Use.source
      rw [scan_miss blind_indexedAccess miss, List.flatMap_cons, onward]
      rfl
    | access a =>
      have hit : indexedAccess none (a.text ++ outcomes us) = some (a, a.text.length) :=
        indexedAccess_eq_some_iff.2 ⟨rfl, List.prefix_append _ _⟩
      have nonempty : a.text ≠ [] := by cases a <;> simp [Access.text, memberText, indexed]
      change (scan indexedAccess (a.text ++ outcomes us)).flatMap _ = _
      rw [scan_hit blind_indexedAccess nonempty hit, List.flatMap_cons, onward]
      simp [Piece.replaceWith, Use.source, chars, Glyph.ofChar]

/-! ### Shortened code -/

/-- Uses with the characters of literals one by one. -/
def spellOut (us : List (Use Cell)) : List (Use Char) :=
  us.flatMap fun
    | .kept k => k.source.map .kept
    | .access a => [.access a]

theorem outcomes_spellOut (us : List (Use Cell)) :
    outcomes (spellOut us) = us.flatMap (Use.outcome Cell.source) := by
  induction us with
  | nil => rfl
  | cons u us ih =>
    rw [spellOut, List.flatMap_cons, outcomes, List.flatMap_append, List.flatMap_cons]
    refine congrArg₂ _ ?_ ih
    cases u <;> simp [Use.outcome, List.flatMap_map]

theorem sources_spellOut (us : List (Use Cell)) :
    (spellOut us).flatMap Use.source = sources (us.flatMap Use.source) := by
  induction us with
  | nil => rfl
  | cons u us ih =>
    rw [spellOut, List.flatMap_cons, List.flatMap_append, List.flatMap_cons, sources_append]
    refine congrArg₂ _ ?_ ih
    cases u with
    | kept k => simp [Use.source, sources, List.flatMap_map]
    | access a =>
      rw [Use.source, sources_chars]
      simp [Use.source, chars, Glyph.ofChar]

/-- The code after the declaration of the tables, written out, is the code that
    was shortened. -/
theorem expand_body {s : List Char} (unreserved : Literal.opening ∉ s)
    (noGlobals : ¬ "$g[".toList <:+: s) (noMembers : ¬ "$m[".toList <:+: s) :
    expand (body s) = s := by
  have whole : (spellOut (uses s)).flatMap Use.source = s := by
    rw [sources_spellOut, uses, sources_usesFrom, sources_cells]
  rw [body_eq_outcomes (unreserved_of_not_mem unreserved), ← outcomes_spellOut, expand_outcomes]
  · exact whole
  · rwa [whole]
  · rwa [whole]

/-- Shortened code is the declaration of the tables on a line of its own, and then
    text that, with the accesses through the tables written out, is the code. -/
theorem shorten_lossless (code : String) (unreserved : Literal.opening ∉ code.toList)
    (noGlobals : ¬ "$g[".toList <:+: code.toList)
    (noMembers : ¬ "$m[".toList <:+: code.toList) :
    ∃ line rest, (shorten code).toList = line ++ '\n' :: rest ∧ '\n' ∉ line ∧
      String.ofList (expand rest) = code := by
  have oneLine : declaration.toList = declaration.toList.dropLast ++ ['\n'] ∧
      '\n' ∉ declaration.toList.dropLast := by decide +kernel
  refine ⟨declaration.toList.dropLast, body code.toList, ?_, oneLine.2, ?_⟩
  · rw [shorten, String.toList_append, String.toList_ofList, oneLine.1]
    simp
  · rw [expand_body unreserved noGlobals noMembers, String.ofList_toList]

/-- Some code with a dollar sign before a bracket, a global it binds, a name in a
    literal and accesses side by side. -/
def crossed : String :=
  "const \x7bself\x7d = [$[0]];\ne0.className=top\nself.appendChild(document.createTextNode(\"top\"));"

theorem crossed_lossless :
    (Literal.opening ∉ crossed.toList ∧ ¬ "$g[".toList <:+: crossed.toList ∧
      ¬ "$m[".toList <:+: crossed.toList) ∧
    ∃ line rest, (shorten crossed).toList = line ++ '\n' :: rest ∧ '\n' ∉ line ∧
      String.ofList (expand rest) = crossed := by
  have unreserved : Literal.opening ∉ crossed.toList := by decide +kernel
  have noGlobals : ¬ "$g[".toList <:+: crossed.toList := by decide +kernel
  have noMembers : ¬ "$m[".toList <:+: crossed.toList := by decide +kernel
  exact ⟨⟨unreserved, noGlobals, noMembers⟩,
    shorten_lossless crossed unreserved noGlobals noMembers⟩

end PageTree.NameTable
