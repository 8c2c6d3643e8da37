/-
  PageTree/Proofs/Shortening/Uses.lean
  ====================================
  **What shortening does to a text, in one pass.**

  Shortening takes literals out, rewrites member accesses, then rewrites globals
  in the result, and puts the literals back.  Here the outcome of all of it is
  read off the cells of the text from left to right: an access is rewritten where
  a whole word of a table stands, and every other cell is kept.

    * `accessAt_member_iff`, `accessAt_global_iff`: where a name is rewritten;
    * `usesFrom_induction`: a text is built up from accesses and cells that are kept;
    * `sources_usesFrom`: nothing but the accesses is rewritten.
-/
import Mathlib
import PageTree.Proofs.Compaction.Repetition
import PageTree.Script.NameTable

namespace PageTree.NameTable

open Text Compaction
open Glyph (chars char?)

/-! ### Whole words and tables -/

/-- The word characters at the front of some cells. -/
def word : List Cell → List Char
  | .char c :: ks => if isWord c then c :: word ks else []
  | _ => []

/-- How the entry of a table is spelled. -/
def spelling (table : List String) (i : Fin table.length) : List Char := table[i].toList

/-- The entry of a table that is spelled like this. -/
def index? (table : List String) (w : List Char) : Option (Fin table.length) :=
  (List.finRange table.length).find? fun i => spelling table i == w

theorem index?_eq_some {table : List String} {w : List Char} {i : Fin table.length}
    (h : index? table w = some i) : spelling table i = w := by
  simpa using List.find?_some h

theorem index?_eq_some_iff {table : List String} (distinct : table.Nodup) {w : List Char}
    {i : Fin table.length} : index? table w = some i ↔ spelling table i = w := by
  constructor
  · exact index?_eq_some
  · intro spelled
    cases found : index? table w with
    | none =>
      have absent := List.find?_eq_none.1 found i (List.mem_finRange i)
      simp [spelled] at absent
    | some j =>
      have same : table[j] = table[i] := by
        apply String.toList_injective
        exact (index?_eq_some found).trans spelled.symm
      have index : (j : Nat) = i := distinct.getElem_inj_iff.1 same
      simp [Fin.ext index]

theorem nodup_globals : globals.Nodup := by decide

theorem nodup_members : members.Nodup := by decide

/-- The names in both tables are words. -/
theorem isAlphanum_of_mem {name : String} (h : name ∈ globals ++ members) :
    name.toList ≠ [] ∧ ∀ c ∈ name.toList, c.isAlphanum = true := by
  have words : ∀ name ∈ globals ++ members,
      name.toList ≠ [] ∧ name.toList.all Char.isAlphanum = true := by decide +kernel
  obtain ⟨nonempty, letters⟩ := words name h
  exact ⟨nonempty, List.all_eq_true.1 letters⟩

theorem isWord_of_mem {name : String} (h : name ∈ globals ++ members) :
    ∀ c ∈ name.toList, isWord c = true :=
  fun c mem => isWord_of_isAlphanum ((isAlphanum_of_mem h).2 c mem)

theorem dropWord_whole_iff {w : List Char} (letters : ∀ c ∈ w, isWord c = true)
    (s rest : List Char) :
    (dropWord w s = some rest ∧ rest.head?.any isWord = false) ↔
      w = s.takeWhile isWord ∧ rest = s.dropWhile isWord := by
  constructor
  · rintro ⟨found, ends⟩
    obtain rfl := dropWord_eq_some_iff.1 found
    have stops : rest.takeWhile isWord = [] ∧ rest.dropWhile isWord = rest := by
      cases rest with
      | nil => simp
      | cons c cs =>
        have plain : isWord c = false := by simpa using ends
        simp [plain]
    rw [List.takeWhile_append_of_pos letters, List.dropWhile_append_of_pos letters]
    simp [stops]
  · rintro ⟨rfl, rfl⟩
    constructor
    · simp [dropWord_eq_some_iff]
    · have stop := List.head?_dropWhile_not isWord s
      cases head : (s.dropWhile isWord).head? with
      | none => simp
      | some c =>
        rw [head] at stop
        simpa using stop

/-- An entry of a table stands at the front of a text if it is the whole word
    there. -/
theorem entry_eq {table : List String}
    (letters : ∀ name ∈ table, ∀ c ∈ name.toList, isWord c = true) (s : List Char) :
    entry table s
      = (index? table (s.takeWhile isWord)).map fun i => (i.val, spelling table i) := by
  have listed : table.zipIdx
      = (List.finRange table.length).map fun i : Fin table.length => (table[i], i.val) := by
    apply List.ext_getElem <;> simp
  have here (i : Fin table.length) :
      ((dropWord (spelling table i) s).bind fun rest =>
          if rest.head?.any isWord then none else some (i.val, spelling table i))
        = if spelling table i == s.takeWhile isWord then some (i.val, spelling table i)
          else none := by
    have whole := dropWord_whole_iff (letters table[i] (List.getElem_mem i.isLt)) s
    by_cases spelled : spelling table i = s.takeWhile isWord
    · obtain ⟨found, ends⟩ := (whole _).2 ⟨spelled, rfl⟩
      change dropWord (spelling table i) s = _ at found
      rw [found, if_pos (by simpa using spelled)]
      simp [ends]
    · rw [if_neg (by simpa using spelled), Option.bind_eq_none_iff]
      intro rest found
      by_contra ends
      exact spelled ((whole rest).1 ⟨found, by simpa using ends⟩).1
  rw [entry, listed, List.findSome?_map, index?]
  change (List.finRange table.length).findSome? (fun i =>
    (dropWord (spelling table i) s).bind fun rest =>
      if rest.head?.any isWord then none else some (i.val, spelling table i)) = _
  simp only [here]
  induction List.finRange table.length with
  | nil => rfl
  | cons i is ih =>
    by_cases spelled : spelling table i == s.takeWhile isWord
    · rw [List.findSome?_cons, List.find?_cons, if_pos spelled, spelled]
      rfl
    · rw [List.findSome?_cons, List.find?_cons, if_neg spelled, Bool.eq_false_iff.2 spelled]
      exact ih

theorem isWord_of_mem_member (i : Fin members.length) : ∀ c ∈ spelling members i, isWord c = true :=
  isWord_of_mem (List.mem_append_right globals (List.getElem_mem i.isLt))

theorem isWord_of_mem_global (i : Fin globals.length) : ∀ c ∈ spelling globals i, isWord c = true :=
  isWord_of_mem (List.mem_append_left members (List.getElem_mem i.isLt))

/-! ### Uses of the tables -/

/-- A tabulated name where it is rewritten. -/
inductive Access where
  /-- A member, with the dot before it. -/
  | member (i : Fin members.length)
  | global (i : Fin globals.length)
deriving DecidableEq, Repr

namespace Access

/-- What an access reads in the source. -/
def name : Access → List Char
  | member i => '.' :: spelling members i
  | global i => spelling globals i

/-- What an access is rewritten to. -/
def text : Access → List Char
  | member i => memberText i
  | global i => indexed 'g' i

end Access

/-- What becomes of a piece of a text. -/
inductive Use (τ : Type) where
  | kept (x : τ)
  | access (a : Access)
deriving DecidableEq, Repr

namespace Use

variable {τ : Type}

/-- What stands in the source. -/
def source [Glyph τ] : Use τ → List τ
  | kept x => [x]
  | access a => chars a.name

/-- What is written for it, given how what is kept is written. -/
def outcome (write : τ → List Char) : Use τ → List Char
  | kept x => write x
  | access a => a.text

end Use

/-- Whether a global may follow a cell. -/
def frees (k : Cell) : Bool := (char? k).all mayPrecede

/-- The access that is rewritten at the front of some cells; `free` tells whether
    a global may stand there, and the globals that the text binds may not. -/
def accessAt (bound : List String) (free : Bool) (ks : List Cell) : Option Access :=
  match ks with
  | .char '.' :: rest => (index? members (word rest)).map .member
  | _ =>
    if free then
      ((index? globals (word ks)).filter fun i => !bound.contains (String.ofList (spelling globals i))).map
        .global
    else none

/-- The uses of the tables in some cells, of which `skip` still belong to the last
    access. -/
def usesFrom (bound : List String) : Bool → Nat → List Cell → List (Use Cell)
  | _, _, [] => []
  | _, skip + 1, _ :: ks => usesFrom bound false skip ks
  | free, 0, k :: ks =>
    match accessAt bound free (k :: ks) with
    | some a => .access a :: usesFrom bound false (a.name.length - 1) ks
    | none => .kept k :: usesFrom bound (frees k) 0 ks

/-- The uses of the tables in a text. -/
def uses (s : List Char) : List (Use Cell) :=
  usesFrom (shadowed (Literal.protect s).1) true 0 (cells s)

theorem word_chars {w : List Char} (letters : ∀ c ∈ w, isWord c = true) (ks : List Cell) :
    word (chars w ++ ks) = w ++ word ks := by
  induction w with
  | nil => rfl
  | cons c cs ih =>
    have here := letters c List.mem_cons_self
    have onward := ih fun d mem => letters d (List.mem_cons_of_mem c mem)
    change (if isWord c then c :: word (chars cs ++ ks) else []) = _
    rw [here, onward]
    rfl

/-- Whether the next glyph is a word character. -/
def wordNext (ks : List Cell) : Bool := (ks.head?.bind char?).any isWord

theorem word_eq_nil_iff {ks : List Cell} : word ks = [] ↔ wordNext ks = false := by
  rcases ks with _ | ⟨c | l, ks⟩
  · simp [word, wordNext]
  · by_cases letter : isWord c <;> simp [word, wordNext, char?, letter]
  · simp [word, wordNext, char?]

/-- What is left after the word at the front. -/
theorem exists_of_word (ks : List Cell) :
    ∃ rest, ks = chars (word ks) ++ rest ∧ wordNext rest = false := by
  induction ks with
  | nil => exact ⟨[], rfl, rfl⟩
  | cons k ks ih =>
    cases k with
    | literal l => exact ⟨.literal l :: ks, rfl, rfl⟩
    | char c =>
      by_cases letter : isWord c
      · obtain ⟨rest, split, ends⟩ := ih
        refine ⟨rest, ?_, ends⟩
        rw [word, if_pos letter]
        exact congrArg (Cell.char c :: ·) split
      · refine ⟨.char c :: ks, ?_, ?_⟩
        · rw [word, if_neg letter]
          rfl
        · simpa [wordNext, char?] using letter

theorem word_eq_iff {w : List Char} (letters : ∀ c ∈ w, isWord c = true) (ks : List Cell) :
    word ks = w ↔ ∃ rest, ks = chars w ++ rest ∧ wordNext rest = false := by
  constructor
  · rintro rfl
    exact exists_of_word ks
  · rintro ⟨rest, rfl, ends⟩
    rw [word_chars letters, word_eq_nil_iff.2 ends, List.append_nil]

theorem Access.name_ne_nil (a : Access) : a.name ≠ [] := by
  cases a with
  | member i => simp [Access.name]
  | global i =>
    exact (isAlphanum_of_mem (List.mem_append_left _ (List.getElem_mem i.isLt))).1

/-- No name begins with a dot. -/
theorem not_isWord_dot : isWord '.' = false := by decide

theorem accessAt_member_iff {bound : List String} {free : Bool} {ks : List Cell}
    {i : Fin members.length} :
    accessAt bound free ks = some (.member i) ↔
      ∃ rest, ks = chars (Access.member i).name ++ rest ∧ wordNext rest = false := by
  have whole := word_eq_iff (isWord_of_mem_member i)
  constructor
  · intro found
    unfold accessAt at found
    split at found
    · next cs =>
      obtain ⟨j, named, same⟩ := Option.map_eq_some_iff.1 found
      obtain rfl := Access.member.inj same
      obtain ⟨rest, rfl, ends⟩ := (whole cs).1 (index?_eq_some named).symm
      exact ⟨rest, rfl, ends⟩
    · split at found
      · obtain ⟨j, _, same⟩ := Option.map_eq_some_iff.1 found
        cases same
      · cases found
  · rintro ⟨rest, rfl, ends⟩
    have named : index? members (word (chars (spelling members i) ++ rest)) = some i :=
      (index?_eq_some_iff nodup_members).2 ((whole _).2 ⟨rest, rfl, ends⟩).symm
    change (index? members (word (chars (spelling members i) ++ rest))).map Access.member = _
    rw [named]
    rfl

theorem accessAt_global_iff {bound : List String} {free : Bool} {ks : List Cell}
    {i : Fin globals.length} :
    accessAt bound free ks = some (.global i) ↔
      (free = true ∧ String.ofList (spelling globals i) ∉ bound) ∧
        ∃ rest, ks = chars (Access.global i).name ++ rest ∧ wordNext rest = false := by
  have whole := word_eq_iff (isWord_of_mem_global i) ks
  change _ ↔ _ ∧ ∃ rest, ks = chars (spelling globals i) ++ rest ∧ wordNext rest = false
  rw [← whole]
  unfold accessAt
  split
  · next rest =>
    have dot : word (.char '.' :: rest) = [] := by simp [word, not_isWord_dot]
    rw [dot]
    constructor
    · intro found
      obtain ⟨j, _, same⟩ := Option.map_eq_some_iff.1 found
      cases same
    · rintro ⟨_, named⟩
      exact absurd named.symm (Access.name_ne_nil (.global i))
  · constructor
    · intro found
      split at found
      · next isFree =>
        obtain ⟨j, named, same⟩ := Option.map_eq_some_iff.1 found
        obtain rfl := Access.global.inj same
        obtain ⟨named, unbound⟩ := Option.filter_eq_some_iff.1 named
        exact ⟨⟨isFree, by simpa using unbound⟩, (index?_eq_some named).symm⟩
      · cases found
    · rintro ⟨⟨isFree, unbound⟩, named⟩
      rw [if_pos isFree, (index?_eq_some_iff nodup_globals).2 named.symm]
      simp [unbound]

theorem accessAt_eq_some {bound : List String} {free : Bool} {ks : List Cell} {a : Access}
    (h : accessAt bound free ks = some a) :
    ∃ rest, ks = chars a.name ++ rest ∧ wordNext rest = false := by
  cases a with
  | member i => exact accessAt_member_iff.1 h
  | global i => exact (accessAt_global_iff.1 h).2

/-! ### One use after another -/

theorem usesFrom_skip (bound : List String) (n : Nat) (ks : List Cell) :
    usesFrom bound false n ks = usesFrom bound false 0 (ks.drop n) := by
  induction n generalizing ks with
  | zero => rfl
  | succ n ih =>
    cases ks with
    | nil => rfl
    | cons k ks => simpa [usesFrom] using ih ks

theorem usesFrom_kept {bound : List String} {free : Bool} {k : Cell} {ks : List Cell}
    (h : accessAt bound free (k :: ks) = none) :
    usesFrom bound free 0 (k :: ks) = .kept k :: usesFrom bound (frees k) 0 ks := by
  simp [usesFrom, h]

theorem usesFrom_access {bound : List String} {free : Bool} {a : Access} {rest : List Cell}
    (h : accessAt bound free (chars a.name ++ rest) = some a) :
    usesFrom bound free 0 (chars a.name ++ rest) = .access a :: usesFrom bound false 0 rest := by
  obtain ⟨c, cs, named⟩ := List.exists_cons_of_ne_nil a.name_ne_nil
  have split : chars a.name ++ rest = Cell.char c :: (chars cs ++ rest) := by
    rw [named]
    rfl
  have after : (chars cs ++ rest).drop (a.name.length - 1) = rest := by
    simp [named, chars]
  rw [split] at h ⊢
  simp [usesFrom, h, usesFrom_skip, after]

/-- Texts are built up from accesses and cells that are kept. -/
theorem usesFrom_induction (bound : List String) {P : Bool → List Cell → Prop}
    (nil : ∀ free, P free [])
    (kept : ∀ free k ks, accessAt bound free (k :: ks) = none → P (frees k) ks → P free (k :: ks))
    (access : ∀ free a rest, accessAt bound free (chars a.name ++ rest) = some a →
      wordNext rest = false → P false rest → P free (chars a.name ++ rest))
    (free : Bool) (ks : List Cell) : P free ks := by
  induction length : ks.length using Nat.strong_induction_on generalizing free ks with
  | _ n ih =>
    cases found : accessAt bound free ks with
    | none =>
      cases ks with
      | nil => exact nil free
      | cons k ks => exact kept free k ks found (ih ks.length (by simp [← length]) _ ks rfl)
    | some a =>
      obtain ⟨rest, rfl, ends⟩ := accessAt_eq_some found
      have positive := List.length_pos_of_ne_nil a.name_ne_nil
      have shorter : rest.length < n := by
        rw [← length]
        simp only [chars, List.length_append, List.length_map]
        omega
      exact access free a rest found ends (ih rest.length shorter false rest rfl)

/-- Nothing but the accesses is rewritten. -/
theorem sources_usesFrom (bound : List String) (free : Bool) (ks : List Cell) :
    (usesFrom bound free 0 ks).flatMap Use.source = ks := by
  induction free, ks using usesFrom_induction bound with
  | nil free => rfl
  | kept free k ks miss ih => simp [usesFrom_kept miss, Use.source, ih]
  | access free a rest hit _ ih => simp [usesFrom_access hit, Use.source, ih]

end PageTree.NameTable
