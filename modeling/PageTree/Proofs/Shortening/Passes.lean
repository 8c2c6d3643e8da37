/-
  PageTree/Proofs/Shortening/Passes.lean
  ======================================
  **The passes of shortening on a text with placeholders.**

  The pass over members replaces a dot and a word by an index in brackets, so the
  words of the text stay where they are and the pass over globals finds the same
  ones.  No name begins in a placeholder, and so both passes together write what
  the uses of the tables say.

    * `globalPass_memberPass`: both passes, use by use;
    * `body_eq`: the outcome before literals are put back, for every text;
    * `body_eq_outcomes`: the outcome, if no character opens a placeholder.
-/
import Mathlib
import PageTree.Proofs.Shortening.Uses

namespace PageTree.NameTable

open Text Compaction
open Glyph (chars char?)

/-! ### Members -/

def memberPass (s : List Char) : List Char := substitute memberAccess memberText s

theorem blind_memberAccess : memberAccess.Blind := fun _ _ => rfl

theorem memberPass_miss {c : Char} {cs : List Char} (h : memberAccess none (c :: cs) = none) :
    memberPass (c :: cs) = c :: memberPass cs := by
  simp [memberPass, substitute, scan_miss blind_memberAccess h, Piece.replaceWith]

theorem memberPass_of_ne {c : Char} (h : c ≠ '.') (cs : List Char) :
    memberPass (c :: cs) = c :: memberPass cs := by
  apply memberPass_miss
  unfold memberAccess
  split
  · next same => exact absurd (List.cons.inj same).1 h
  · rfl

theorem memberPass_append {w : List Char} (h : '.' ∉ w) (s : List Char) :
    memberPass (w ++ s) = w ++ memberPass s := by
  induction w with
  | nil => rfl
  | cons c cs ih =>
    obtain ⟨plain, rest⟩ := not_or.1 (mt List.mem_cons.2 h)
    rw [List.cons_append, memberPass_of_ne (Ne.symm plain), ih rest, List.cons_append]

theorem entry_members (s : List Char) :
    entry members s
      = (index? members (s.takeWhile isWord)).map fun i => (i.val, spelling members i) :=
  entry_eq (fun _ mem => isWord_of_mem (List.mem_append_right globals mem)) s

theorem entry_globals (s : List Char) :
    entry globals s
      = (index? globals (s.takeWhile isWord)).map fun i => (i.val, spelling globals i) :=
  entry_eq (fun _ mem => isWord_of_mem (List.mem_append_left members mem)) s

theorem memberPass_dot {cs : List Char} (h : index? members (cs.takeWhile isWord) = none) :
    memberPass ('.' :: cs) = '.' :: memberPass cs := by
  apply memberPass_miss
  simp [memberAccess, entry_members, h]

theorem memberPass_member {i : Fin members.length} {rest : List Char}
    (h : (spelling members i ++ rest).takeWhile isWord = spelling members i) :
    memberPass ((Access.member i).name ++ rest) = (Access.member i).text ++ memberPass rest := by
  have found : index? members ((spelling members i ++ rest).takeWhile isWord) = some i :=
    (index?_eq_some_iff nodup_members).2 h.symm
  have hit : memberAccess none ((Access.member i).name ++ rest)
      = some (i.val, (Access.member i).name.length) := by
    change (entry members (spelling members i ++ rest)).map _ = _
    simp [entry_members, found, Access.name]
  rw [memberPass, substitute, scan_hit blind_memberAccess (Access.name_ne_nil _) hit]
  simp [Piece.replaceWith, Access.text, memberPass, substitute]

/-- The pass over members keeps the word at the front. -/
theorem takeWhile_memberPass (s : List Char) :
    (memberPass s).takeWhile isWord = s.takeWhile isWord := by
  induction s with
  | nil => rfl
  | cons c cs ih =>
    by_cases dot : c = '.'
    · subst dot
      cases found : index? members (cs.takeWhile isWord) with
      | none => simp [memberPass_dot found, not_isWord_dot]
      | some i =>
        have spelled := index?_eq_some found
        obtain ⟨rest, split⟩ : spelling members i <+: cs := spelled ▸ List.takeWhile_prefix isWord
        subst split
        have opens : isWord '[' = false := by decide
        change (memberPass ((Access.member i).name ++ rest)).takeWhile isWord = _
        rw [memberPass_member spelled.symm]
        simp [Access.text, memberText, opens, not_isWord_dot]
    · rw [memberPass_of_ne dot, List.takeWhile_cons, List.takeWhile_cons, ih]

/-! ### Globals -/

section Globals

variable (bound : List String)

/-- The pass over globals on the rest of a text; `free` tells whether a global may
    stand at its front. -/
def globalPass (free : Bool) (s : List Char) : List Char :=
  substituteFrom globalUse (globalText bound) (if free then none else some '.') s

theorem scanFrom_globalUse (b b' : Char) (n : Nat) (s : List Char) :
    scanFrom globalUse (some b) n s = scanFrom globalUse (some b') 0 (s.drop n) := by
  induction s generalizing b n with
  | nil => cases n <;> rfl
  | cons c cs ih =>
    cases n with
    | zero => rfl
    | succ n => simpa [scanFrom] using ih c n

theorem substituteFrom_globalUse (b : Char) (s : List Char) :
    substituteFrom globalUse (globalText bound) (some b) s = globalPass bound false s := by
  simp [globalPass, substituteFrom, scanFrom_globalUse b '.']

/-- What stands for a global after the pass. -/
def globalOutcome (i : Fin globals.length) : List Char :=
  if bound.contains (String.ofList (spelling globals i)) then spelling globals i
  else indexed 'g' i

theorem globalUse_some (b c : Char) (cs : List Char) :
    globalUse (some b) (c :: cs)
      = if mayPrecede c then
          (index? globals (cs.takeWhile isWord)).map fun i =>
            ((some c, i.val, spelling globals i), (spelling globals i).length + 1)
        else none := by
  simp [globalUse, entry_globals, Function.comp_def]

theorem globalUse_none (s : List Char) :
    globalUse none s
      = ((index? globals (s.takeWhile isWord)).map fun i =>
          ((none, i.val, spelling globals i), (spelling globals i).length)).or
        (globalUse (some '.') s) := by
  cases s <;> simp [globalUse, entry_globals, Function.comp_def]

theorem globalPass_true_of_none {s : List Char} (h : index? globals (s.takeWhile isWord) = none) :
    globalPass bound true s = globalPass bound false s := by
  cases s with
  | nil => rfl
  | cons c cs =>
    have same : globalUse none (c :: cs) = globalUse (some '.') (c :: cs) := by
      simp [globalUse_none, h]
    simp [globalPass, substituteFrom, scanFrom, same]

theorem globalPass_true_of_some {i : Fin globals.length} {rest : List Char}
    (h : (spelling globals i ++ rest).takeWhile isWord = spelling globals i) :
    globalPass bound true (spelling globals i ++ rest)
      = globalOutcome bound i ++ globalPass bound false rest := by
  obtain ⟨c, cs, spelled⟩ : ∃ c cs, spelling globals i = c :: cs :=
    List.exists_cons_of_ne_nil (Access.name_ne_nil (.global i))
  have found : index? globals ((spelling globals i ++ rest).takeWhile isWord) = some i :=
    (index?_eq_some_iff nodup_globals).2 h.symm
  have hit : globalUse none (spelling globals i ++ rest)
      = some ((none, i.val, spelling globals i), (spelling globals i).length) := by
    simp [globalUse_none, found]
  have length : (spelling globals i).length = cs.length + 1 := by simp [spelled]
  have front : spelling globals i ++ rest = c :: (cs ++ rest) := by simp [spelled]
  rw [length, front] at hit
  rw [front, globalPass, if_pos rfl, substituteFrom, scanFrom, hit]
  simp only [List.flatMap_cons, scanFrom_globalUse c '.', List.drop_left]
  simp [Piece.replaceWith, globalText, globalOutcome, globalPass, substituteFrom]

/-- Away from the start of a text the pass looks one character ahead. -/
theorem globalPass_false_cons (c : Char) (cs : List Char) :
    globalPass bound false (c :: cs) = c :: globalPass bound (mayPrecede c) cs := by
  have miss (h : globalUse (some '.') (c :: cs) = none) :
      globalPass bound false (c :: cs) = c :: globalPass bound false cs := by
    have step := substituteFrom_miss h (globalText bound)
    rw [substituteFrom_globalUse, substituteFrom_globalUse] at step
    exact step
  cases precedes : mayPrecede c with
  | false => exact miss (by simp [globalUse_some, precedes])
  | true =>
    cases found : index? globals (cs.takeWhile isWord) with
    | none =>
      rw [globalPass_true_of_none bound found]
      exact miss (by simp [globalUse_some, found])
    | some i =>
      have spelled := index?_eq_some found
      obtain ⟨rest, rfl⟩ : spelling globals i <+: cs := spelled ▸ List.takeWhile_prefix isWord
      have hit : globalUse (some '.') (c :: (spelling globals i ++ rest))
          = some ((some c, i.val, spelling globals i), (spelling globals i).length + 1) := by
        simp [globalUse_some, precedes, found]
      rw [globalPass_true_of_some bound spelled.symm, globalPass, if_neg Bool.false_ne_true,
        substituteFrom, scanFrom, hit]
      simp only [List.flatMap_cons, scanFrom_globalUse c '.', List.drop_left]
      simp [Piece.replaceWith, globalText, globalOutcome, globalPass, substituteFrom]

theorem mayPrecede_of_isWord {c : Char} (h : isWord c = true) : mayPrecede c = false := by
  simp [mayPrecede, h]

/-- Word characters are passed over. -/
theorem globalPass_false_append {w : List Char} (letters : ∀ c ∈ w, isWord c = true)
    (s : List Char) : globalPass bound false (w ++ s) = w ++ globalPass bound false s := by
  induction w with
  | nil => rfl
  | cons c cs ih =>
    have here := mayPrecede_of_isWord (letters c List.mem_cons_self)
    have onward := ih fun d mem => letters d (List.mem_cons_of_mem c mem)
    rw [List.cons_append, globalPass_false_cons, here, onward, List.cons_append]

/-- Where no unbound global stands whole, a character is passed over. -/
theorem globalPass_cons {free : Bool} {c : Char} {cs : List Char}
    (h : ∀ i, free = true → index? globals ((c :: cs).takeWhile isWord) = some i →
      String.ofList (spelling globals i) ∈ bound) :
    globalPass bound free (c :: cs) = c :: globalPass bound (mayPrecede c) cs := by
  cases free with
  | false => exact globalPass_false_cons bound c cs
  | true =>
    cases found : index? globals ((c :: cs).takeWhile isWord) with
    | none => rw [globalPass_true_of_none bound found, globalPass_false_cons]
    | some i =>
      have isBound := h i rfl found
      have spelled := index?_eq_some found
      obtain ⟨rest, split⟩ : spelling globals i <+: c :: cs :=
        spelled ▸ List.takeWhile_prefix isWord
      rw [← split] at spelled
      rw [← globalPass_false_cons, ← split, globalPass_true_of_some bound spelled.symm,
        globalPass_false_append bound (isWord_of_mem_global i)]
      simp [globalOutcome, isBound]

/-- A character with which no global begins. -/
def Quiet (c : Char) : Prop := ∀ i : Fin globals.length, (spelling globals i).head? ≠ some c

instance (c : Char) : Decidable (Quiet c) := inferInstanceAs (Decidable (∀ _, _))

theorem quiet_of_isDigit {c : Char} (h : c.isDigit = true) : Quiet c := by
  have letters : ∀ i, (spelling globals i).head?.any Char.isDigit = false := by decide
  intro i starts
  have plain := letters i
  rw [starts] at plain
  exact absurd h (by simpa using plain)

theorem globalPass_of_quiet {c : Char} (quiet : Quiet c) (free : Bool) (cs : List Char) :
    globalPass bound free (c :: cs) = c :: globalPass bound (mayPrecede c) cs := by
  apply globalPass_cons
  intro i _ found
  have spelled := index?_eq_some found
  exfalso
  by_cases letter : isWord c
  · exact quiet i (by simp [spelled, letter])
  · exact Access.name_ne_nil (.global i) (by simp [Access.name, spelled, letter])

/-- After characters with which no global begins, the last one decides whether a
    global may stand there. -/
theorem globalPass_quiet_append {w : List Char} {d : Char} (quiet : ∀ c ∈ w ++ [d], Quiet c)
    (free : Bool) (s : List Char) :
    globalPass bound free (w ++ d :: s) = w ++ d :: globalPass bound (mayPrecede d) s := by
  induction w generalizing free with
  | nil => exact globalPass_of_quiet bound (quiet d (by simp)) free s
  | cons c cs ih =>
    have onward := ih (fun e mem => quiet e (List.mem_cons_of_mem c mem)) (mayPrecede c)
    rw [List.cons_append, globalPass_of_quiet bound (quiet c (by simp)), onward, List.cons_append]

theorem globalPass_placeholder (n : Nat) (free : Bool) (s : List Char) :
    globalPass bound free (Literal.placeholder n ++ s)
      = Literal.placeholder n ++ globalPass bound true s := by
  have quiet : ∀ c ∈ (Literal.opening :: Nat.toDigits 10 n) ++ [Literal.closing], Quiet c := by
    intro c mem
    rcases cases_of_mem_placeholder mem with rfl | digit | rfl
    · decide
    · exact quiet_of_isDigit digit
    · decide
  have split (t : List Char) : Literal.placeholder n ++ t
      = (Literal.opening :: Nat.toDigits 10 n) ++ Literal.closing :: t := by
    simp [Literal.placeholder]
  have frees : mayPrecede Literal.closing = true := by decide +kernel
  rw [split, split, globalPass_quiet_append bound quiet, frees]

theorem globalPass_memberText (n : Nat) (free : Bool) (s : List Char) :
    globalPass bound free (memberText n ++ s) = memberText n ++ globalPass bound true s := by
  have quiet : ∀ c ∈ (['[', '$', 'm', '['] ++ Nat.toDigits 10 n ++ [']']) ++ [']'], Quiet c := by
    intro c mem
    simp only [List.mem_append, List.mem_cons, List.not_mem_nil, or_false] at mem
    rcases mem with (((rfl | rfl | rfl | rfl) | digit) | rfl) | rfl
    case inl.inl.inr =>
      exact quiet_of_isDigit (Nat.isDigit_of_mem_toDigits (by decide) (by decide) digit)
    all_goals decide
  have split (t : List Char) : memberText n ++ t
      = (['[', '$', 'm', '['] ++ Nat.toDigits 10 n ++ [']']) ++ ']' :: t := by
    simp [memberText, indexed]
  have frees : mayPrecede ']' = true := by decide
  rw [split, split, globalPass_quiet_append bound quiet, frees]

/-- No global stands where no word begins. -/
theorem globalPass_of_no_word {s : List Char} (h : s.takeWhile isWord = []) (free : Bool) :
    globalPass bound free s = globalPass bound false s := by
  cases free with
  | false => rfl
  | true =>
    apply globalPass_true_of_none
    cases found : index? globals (s.takeWhile isWord) with
    | none => rfl
    | some i => exact absurd ((index?_eq_some found).trans h) (Access.name_ne_nil (.global i))

end Globals

/-! ### Both passes -/

/-- The text of uses with placeholders for literals, of which the first one has
    the number `n`. -/
def written : Nat → List (Use Cell) → List Char
  | _, [] => []
  | n, .kept (.char c) :: us => c :: written n us
  | n, .kept (.literal _) :: us => Literal.placeholder n ++ written (n + 1) us
  | n, .access a :: us => a.text ++ written n us

/-- The text of cells with placeholders for literals. -/
def outline (n : Nat) (ks : List Cell) : List Char := written n (ks.map .kept)

theorem outline_chars (n : Nat) (w : List Char) (ks : List Cell) :
    outline n (chars w ++ ks) = w ++ outline n ks := by
  induction w with
  | nil => rfl
  | cons c cs ih => exact congrArg (c :: ·) ih

theorem takeWhile_outline (n : Nat) (ks : List Cell) :
    (outline n ks).takeWhile isWord = word ks := by
  induction ks with
  | nil => rfl
  | cons k ks ih =>
    cases k with
    | char c =>
      change (c :: outline n ks).takeWhile isWord = if isWord c then c :: word ks else []
      by_cases letter : isWord c <;> simp [letter, ih]
    | literal l =>
      have opens : isWord Literal.opening = false := by decide +kernel
      change (Literal.opening :: (_ ++ [Literal.closing]) ++ _).takeWhile isWord = []
      simp [opens]

theorem dot_not_mem_placeholder (n : Nat) : '.' ∉ Literal.placeholder n := by
  intro mem
  rcases cases_of_mem_placeholder mem with opens | digit | closes
  · exact absurd opens (by decide)
  · exact absurd digit (by decide)
  · exact absurd closes (by decide)

/-- Outside the accesses the pass over members keeps a character. -/
theorem memberPass_kept {bound : List String} {free : Bool} {c : Char} {ks : List Cell}
    (miss : accessAt bound free (.char c :: ks) = none) (n : Nat) :
    memberPass (c :: outline n ks) = c :: memberPass (outline n ks) := by
  by_cases dot : c = '.'
  · subst dot
    apply memberPass_dot
    rw [takeWhile_outline]
    exact Option.map_eq_none_iff.1 miss
  · exact memberPass_of_ne dot _

/-- A whole global at a place where it may stand is rewritten unless it is bound. -/
theorem bound_of_accessAt_eq_none {bound : List String} {free : Bool} {ks : List Cell}
    (miss : accessAt bound free ks = none) {i : Fin globals.length} (isFree : free = true)
    (named : index? globals (word ks) = some i) : String.ofList (spelling globals i) ∈ bound := by
  by_contra unbound
  have whole := (word_eq_iff (isWord_of_mem_global i) ks).1
    (index?_eq_some named).symm
  have found := accessAt_global_iff.2 ⟨⟨isFree, unbound⟩, whole⟩
  rw [miss] at found
  cases found

/-- What both passes write is what the uses say. -/
theorem globalPass_memberPass (bound : List String) (free : Bool) (n : Nat) (ks : List Cell) :
    globalPass bound free (memberPass (outline n ks)) = written n (usesFrom bound free 0 ks) := by
  induction free, ks using usesFrom_induction bound generalizing n with
  | nil free => rfl
  | kept free k ks miss ih =>
    rw [usesFrom_kept miss]
    cases k with
    | char c =>
      change globalPass bound free (memberPass (c :: outline n ks)) = c :: written n _
      have same : (c :: memberPass (outline n ks)).takeWhile isWord = word (.char c :: ks) := by
        rw [← memberPass_kept miss, takeWhile_memberPass]
        exact takeWhile_outline n (.char c :: ks)
      rw [memberPass_kept miss, globalPass_cons bound, ← ih n]
      · rfl
      · intro i isFree named
        rw [same] at named
        exact bound_of_accessAt_eq_none miss isFree named
    | literal l =>
      change globalPass bound free (memberPass (Literal.placeholder n ++ outline (n + 1) ks))
        = Literal.placeholder n ++ written (n + 1) _
      rw [memberPass_append (dot_not_mem_placeholder n), globalPass_placeholder, ← ih (n + 1)]
      rfl
  | access free a rest hit ends ih =>
    rw [usesFrom_access hit, outline_chars]
    change _ = a.text ++ written n _
    have noWord : (outline n rest).takeWhile isWord = [] := by
      rw [takeWhile_outline, word_eq_nil_iff.2 ends]
    cases a with
    | member i =>
      have whole : (spelling members i ++ outline n rest).takeWhile isWord
          = spelling members i := by
        rw [List.takeWhile_append_of_pos (isWord_of_mem_member i), noWord, List.append_nil]
      rw [memberPass_member whole, ← ih n, Access.text, globalPass_memberText,
        globalPass_of_no_word]
      rw [takeWhile_memberPass, noWord]
    | global i =>
      obtain ⟨⟨rfl, unbound⟩, _⟩ := accessAt_global_iff.1 hit
      have letters := isWord_of_mem_global i
      have noDot : '.' ∉ spelling globals i := fun mem => by
        simpa [not_isWord_dot] using letters '.' mem
      have whole : (spelling globals i ++ memberPass (outline n rest)).takeWhile isWord
          = spelling globals i := by
        rw [List.takeWhile_append_of_pos letters, takeWhile_memberPass, noWord, List.append_nil]
      change globalPass bound true (memberPass (spelling globals i ++ outline n rest)) = _
      rw [memberPass_append noDot, globalPass_true_of_some bound whole, ← ih n]
      simp [globalOutcome, unbound, Access.text]

/-! ### Putting the literals back -/

theorem number_eq_outline (n : Nat) (ps : List (Piece Unit)) :
    Literal.number n ps = outline n (ps.map Cell.ofPiece) := by
  induction ps generalizing n with
  | nil => rfl
  | cons p ps ih =>
    cases p with
    | plain c => exact congrArg (c :: ·) (ih n)
    | hit _ l => exact congrArg (Literal.placeholder n ++ ·) (ih (n + 1))

/-- The literals of a text go back to their places in the text of its uses. -/
theorem body_eq (s : List Char) :
    body s = Literal.restore (Literal.protect s).2 (written 0 (uses s)) := by
  have both := globalPass_memberPass (shadowed (Literal.protect s).1) true 0 (cells s)
  rw [cells, ← number_eq_outline] at both
  rw [uses, cells, ← both]
  rfl

/-- The literals among cells. -/
def literals (ks : List Cell) : List (List Char) :=
  ks.filterMap fun
    | .char _ => none
    | .literal l => some l

theorem literals_chars (w : List Char) : literals (chars w) = [] := by
  simp [literals, chars, Glyph.ofChar]

theorem lexemes_eq_literals (ps : List (Piece Unit)) :
    Literal.lexemes ps = literals (ps.map Cell.ofPiece) := by
  induction ps with
  | nil => rfl
  | cons p ps ih =>
    cases p with
    | plain c => exact ih
    | hit _ l => exact congrArg (l :: ·) ih

theorem opening_not_mem_text (a : Access) : Literal.opening ∉ a.text := by
  have digits (n : Nat) : Literal.opening ∉ Nat.toDigits 10 n := fun mem =>
    absurd (Nat.isDigit_of_mem_toDigits (by decide) (by decide) mem) (by decide)
  unfold Literal.opening at digits ⊢
  cases a <;> simp [Access.text, memberText, indexed, digits]

theorem restore_written {us : List (Use Cell)}
    (unreserved : ∀ c, Use.kept (.char c) ∈ us → c ≠ Literal.opening) (front : List (List Char)) :
    Literal.restore (front ++ literals (us.flatMap Use.source)) (written front.length us)
      = us.flatMap (Use.outcome Cell.source) := by
  induction us generalizing front with
  | nil => rfl
  | cons u us ih =>
    have onward := ih fun c mem => unreserved c (List.mem_cons_of_mem u mem)
    cases u with
    | kept k =>
      cases k with
      | char c =>
        have plain : Literal.opening ∉ [c] := by
          simpa using Ne.symm (unreserved c List.mem_cons_self)
        change Literal.restore (front ++ literals (us.flatMap Use.source))
          ([c] ++ written front.length us) = _
        rw [Literal.restore_append plain, onward]
        rfl
      | literal l =>
        have known : (front ++ l :: literals (us.flatMap Use.source))[front.length]? = some l := by
          simp
        have rest := onward (front ++ [l])
        rw [List.length_append, List.length_singleton, List.append_assoc,
          List.singleton_append] at rest
        change Literal.restore (front ++ l :: literals (us.flatMap Use.source))
          (Literal.placeholder front.length ++ written (front.length + 1) us) = _
        rw [Literal.restore_placeholder known, rest]
        rfl
    | access a =>
      have same : literals ((Use.access a :: us).flatMap Use.source)
          = literals (us.flatMap Use.source) := by
        rw [List.flatMap_cons, Use.source, literals, List.filterMap_append]
        exact congrArg (· ++ _) (literals_chars a.name)
      change Literal.restore _ (a.text ++ written front.length us) = _
      rw [same, Literal.restore_append (opening_not_mem_text a), onward]
      rfl

theorem body_eq_outcomes {s : List Char} (h : Unreserved (cells s)) :
    body s = (uses s).flatMap (Use.outcome Cell.source) := by
  have sources : (uses s).flatMap Use.source = cells s := sources_usesFrom _ _ _
  have unreserved : ∀ c, Use.kept (.char c) ∈ uses s → c ≠ Literal.opening := by
    rintro c mem rfl
    apply h
    rw [← sources]
    exact List.mem_flatMap.2 ⟨_, mem, List.mem_singleton_self _⟩
  have restored := restore_written unreserved []
  rw [sources, cells, ← lexemes_eq_literals] at restored
  rw [body_eq]
  exact restored

end PageTree.NameTable
