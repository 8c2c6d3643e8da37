/-
  PageTree/Proofs/Compaction/Passes.lean
  ======================================
  **The passes of compaction are recursions on glyphs.**

  Compaction scans a text again and again and rewrites what it recognises.  On
  characters, each of its passes over comments is the recursion that drops such
  comments from glyphs, and its passes over blanks together are the recursion
  that tightens glyphs.

    * `dropComments_eq`, `tighten_eq`.
-/
import Mathlib
import PageTree.Markup.Compaction
import PageTree.Proofs.Compaction.Glyphs
import PageTree.Proofs.Scanning

namespace PageTree.Compaction

open Text Glyph

/-! ### Enclosed comments of characters -/

theorem dropWord_char (word s : List Char) : Glyph.dropWord word s = Text.dropWord word s := by
  induction word generalizing s with
  | nil => rfl
  | cons c cs ih =>
    cases s with
    | nil => rfl
    | cons x xs =>
      rw [Glyph.dropWord, Text.dropWord, is_char, ih, Bool.beq_comm]

theorem after_char {word : List Char} (nonempty : word ≠ []) (s : List Char) :
    after word s = (cutAt word s).map (·.2) := by
  induction s with
  | nil => simp [after, cutAt, nonempty]
  | cons c cs ih =>
    rw [after, cutAt, dropWord_char, ih]
    cases Text.dropWord word (c :: cs) with
    | some rest => rfl
    | none =>
      cases cutAt word cs <;> rfl

/-- Either no comment is seen at the front of a text, or one is seen, and the text
    goes on where the recursion does. -/
theorem enclosed_cases {opens closes : List Char} (opensNonempty : opens ≠ [])
    (closesNonempty : closes ≠ []) (before : Option Char) (s : List Char) :
    (enclosed opens closes before s = none ∧
        (Glyph.dropWord opens s).bind (after closes) = none) ∨
      ∃ m, enclosed opens closes before s = some ((), m + 1) ∧
        (Glyph.dropWord opens s).bind (after closes) = some (s.drop (m + 1)) := by
  rw [dropWord_char]
  cases opened : Text.dropWord opens s with
  | none => exact .inl ⟨by simp [enclosed, opened], rfl⟩
  | some inner =>
    rw [Option.bind_some, after_char closesNonempty]
    cases closed : cutAt closes inner with
    | none => exact .inl ⟨by simp [enclosed, opened, closed], rfl⟩
    | some found =>
      obtain ⟨front, rest⟩ := found
      have split : s = opens ++ front ++ closes ++ rest := by
        rw [dropWord_eq_some_iff.1 opened, eq_of_cutAt closed]
        simp only [List.append_assoc]
      have positive := List.length_pos_of_ne_nil opensNonempty
      obtain ⟨m, read⟩ : ∃ m, opens.length + front.length + closes.length = m + 1 :=
        Nat.exists_eq_succ_of_ne_zero (by omega)
      have left : s.drop (m + 1) = rest := by
        rw [split, ← read]
        exact List.drop_left' (by simp only [List.length_append])
      exact .inr ⟨m, by simp [enclosed, opened, closed, ← read], by rw [left]; rfl⟩

theorem substituteFrom_enclosed {opens closes : List Char} (opensNonempty : opens ≠ [])
    (closesNonempty : closes ≠ []) (n : Nat) (s : List Char) (length : s.length < n)
    (before : Option Char) :
    substituteFrom (enclosed opens closes) (fun _ => []) before s
      = Glyph.dropEnclosed opens closes s := by
  induction n generalizing s before with
  | zero => exact absurd length (Nat.not_lt_zero _)
  | succ n ih =>
    cases s with
    | nil => rfl
    | cons c cs =>
      have shorter : cs.length < n := Nat.lt_of_succ_lt_succ length
      rcases enclosed_cases opensNonempty closesNonempty before (c :: cs) with
        ⟨miss, same⟩ | ⟨m, hit, same⟩
      · rw [substituteFrom_miss miss, dropEnclosed_miss same, ih cs shorter]
      · obtain ⟨b, substituted⟩ := substituteFrom_hit hit fun _ => []
        have less : (cs.drop m).length < n :=
          (List.drop_suffix m cs).length_le.trans_lt shorter
        rw [substituted, List.nil_append, dropEnclosed_hit opensNonempty same,
          List.drop_succ_cons, ih (cs.drop m) less]

theorem dropEnclosed_eq {opens closes : List Char} (opensNonempty : opens ≠ [])
    (closesNonempty : closes ≠ []) (s : List Char) :
    Compaction.dropEnclosed opens closes s = Glyph.dropEnclosed opens closes s :=
  substituteFrom_enclosed opensNonempty closesNonempty _ s (Nat.lt_succ_self _) none

/-! ### Line comments of characters -/

/-- The rest of a text from the end of its first line. -/
def fromLineEnd (s : List Char) : List Char := s.dropWhile (· != '\n')

theorem fromLineEnd_suffix (s : List Char) : fromLineEnd s <:+ s := List.dropWhile_suffix _

theorem drop_takeWhile_line (s : List Char) :
    s.drop (s.takeWhile (· != '\n')).length = fromLineEnd s := by
  have split : s.takeWhile (· != '\n') ++ fromLineEnd s = s := List.takeWhile_append_dropWhile
  calc s.drop (s.takeWhile (· != '\n')).length
      = (s.takeWhile (· != '\n') ++ fromLineEnd s).drop (s.takeWhile (· != '\n')).length := by
        rw [split]
    _ = fromLineEnd s := List.drop_left

theorem ne_slash_of_fromLineEnd {s s' : List Char} {c : Char} (h : fromLineEnd s = c :: s') :
    c ≠ '/' := by
  have head := List.head?_dropWhile_not (· != '\n') s
  have h : s.dropWhile (· != '\n') = c :: s' := h
  rw [h] at head
  rintro rfl
  simp at head

theorem dropLineFrom_comment (before b : Option Char) (s : List Char) :
    dropLineFrom true before ('/' :: s) = dropLineFrom false b (fromLineEnd s) := by
  rw [dropLineFrom_true before b]
  rfl

/-- Two slashes at the front of a text open a comment only if what stands before
    lets them, and then only at the start of a line: any other glyph before them
    would have been read together with them. -/
def Unread (before : Option Char) (s : List Char) : Prop :=
  ∀ s', s = '/' :: '/' :: s' → opensLine before = true → before.all (· == '\n') = true

theorem unread_fromLineEnd (before : Option Char) (s : List Char) :
    Unread before (fromLineEnd s) := fun _ h => absurd rfl (ne_slash_of_fromLineEnd h)

/-- A comment is dropped whole; scanning and the recursion both go on at the end
    of its line. -/
theorem substituteFrom_comment {n : Nat}
    (ih : ∀ (s : List Char) (before : Option Char), s.length < n → Unread before s →
      substituteFrom lineComment Option.toList before s = dropLineFrom false before s)
    {before : Option Char} {c : Char} {cs rest : List Char} {kept : Option Char} {k : Nat}
    (hit : lineComment before (c :: cs)
      = some (kept, k + 1 + (rest.takeWhile (· != '\n')).length))
    (left : cs.drop k = rest) (shorter : rest.length < n) (b : Option Char) :
    substituteFrom lineComment Option.toList before (c :: cs)
      = kept.toList ++ dropLineFrom false b (fromLineEnd rest) := by
  rw [Nat.add_right_comm] at hit
  obtain ⟨b', substituted⟩ := substituteFrom_hit hit Option.toList
  rw [substituted, ← List.drop_drop, left, drop_takeWhile_line]
  have goesOn := ih (fromLineEnd rest) b'
    ((fromLineEnd_suffix rest).length_le.trans_lt shorter) (unread_fromLineEnd b' rest)
  rw [goesOn]
  congr 1
  cases fromEnd : fromLineEnd rest with
  | nil => rfl
  | cons d ds =>
    have noSlash : (d == '/') = false := by simpa using ne_slash_of_fromLineEnd fromEnd
    simp only [dropLineFrom, is_char, noSlash, Bool.false_and, Bool.false_eq_true, if_false]

/-- A comment is two slashes at the start of a line, or after a character that
    lets them open a comment. -/
theorem lineComment_eq_some {before : Option Char} {c : Char} {cs : List Char}
    {kept : Option Char} {m : Nat} (h : lineComment before (c :: cs) = some (kept, m)) :
    (kept = none ∧ c = '/' ∧ before.all (· == '\n') = true ∧
        ∃ rest, cs = '/' :: rest ∧ m = 1 + 1 + (rest.takeWhile (· != '\n')).length) ∨
      (kept = some c ∧ (c = '/' → before.all (· == '\n') = false) ∧
        opensLine (some c) = true ∧
        ∃ rest, cs = '/' :: '/' :: rest ∧ m = 2 + 1 + (rest.takeWhile (· != '\n')).length) := by
  unfold lineComment at h
  dsimp only at h
  split at h
  · next rest hs =>
    obtain ⟨rfl, rfl⟩ := List.cons.inj hs
    split at h
    · next start =>
      obtain ⟨rfl, rfl⟩ := Prod.mk.inj (Option.some.inj h)
      exact .inl ⟨rfl, rfl, start, rest, rfl, rfl⟩
    · next start =>
      split at h
      · next more =>
        obtain ⟨rfl, rfl⟩ := Prod.mk.inj (Option.some.inj h)
        exact .inr ⟨rfl, fun _ => by simpa using start, rfl, more, rfl, rfl⟩
      · cases h
  · next c' rest notSlash hs =>
    obtain ⟨rfl, rfl⟩ := List.cons.inj hs
    split at h
    · next opens =>
      obtain ⟨rfl, rfl⟩ := Prod.mk.inj (Option.some.inj h)
      refine .inr ⟨rfl, fun slash => ?_, ?_, rest, rfl, rfl⟩
      · exact (notSlash slash).elim
      · simpa [opensLine] using opens
    · cases h
  · cases h

/-- Where no comment is seen, none begins here, and none begins after this
    character that would not have been seen here. -/
theorem lineComment_eq_none {before : Option Char} {c : Char} {cs : List Char}
    (h : lineComment before (c :: cs) = none) :
    Unread (some c) cs ∧ (Unread before (c :: cs) →
      (is '/' c && cs.head?.any (is '/') && opensLine before) = false) := by
  unfold lineComment at h
  dsimp only at h
  split at h
  · next rest hs =>
    obtain ⟨rfl, rfl⟩ := List.cons.inj hs
    split at h
    · cases h
    · next start =>
      split at h
      · cases h
      · next single =>
        constructor
        · rintro s' slashes -
          exact absurd (List.cons.inj slashes).2 (single s')
        · intro unread
          have closed : opensLine before = false :=
            Bool.eq_false_iff.2 fun opens => start (unread rest rfl opens)
          rw [closed, Bool.and_false]
  · next c' rest notSlash hs =>
    obtain ⟨rfl, rfl⟩ := List.cons.inj hs
    split at h
    · cases h
    · next closes =>
      constructor
      · rintro s' - opens
        exact absurd (by simpa [opensLine] using opens) closes
      · intro _
        have other : (c == '/') = false := by
          rw [beq_eq_false_iff_ne]
          exact notSlash
        simp [other]
  · next notFirst notSecond =>
    constructor
    · rintro s' rfl -
      exact absurd rfl (notSecond c s')
    · intro _
      cases cs with
      | nil => simp
      | cons d ds =>
        have notBoth : ¬ (c = '/' ∧ d = '/') := by
          rintro ⟨rfl, rfl⟩
          exact notFirst ds rfl
        by_cases first : c = '/' <;> by_cases second : d = '/' <;> simp_all

theorem substituteFrom_lineComment (n : Nat) (s : List Char) (before : Option Char)
    (length : s.length < n) (unread : Unread before s) :
    substituteFrom lineComment Option.toList before s = dropLineFrom false before s := by
  induction n generalizing s before with
  | zero => exact absurd length (Nat.not_lt_zero _)
  | succ n ih =>
    cases s with
    | nil => rfl
    | cons c cs =>
      have shorter : cs.length < n := Nat.lt_of_succ_lt_succ length
      cases seen : lineComment before (c :: cs) with
      | none =>
        obtain ⟨next, stays⟩ := lineComment_eq_none seen
        rw [substituteFrom_miss seen, ih cs (some c) shorter next, dropLineFrom, stays unread]
        rfl
      | some hit =>
        obtain ⟨kept, m⟩ := hit
        rcases lineComment_eq_some seen with
          ⟨rfl, rfl, start, rest, rfl, rfl⟩ | ⟨rfl, start, opens, rest, rfl, rfl⟩
        · have opensHere : opensLine before = true := by
            cases before with
            | none => rfl
            | some b =>
              obtain rfl : b = '\n' := by simpa using start
              rfl
          rw [substituteFrom_comment ih seen rfl (Nat.lt_of_succ_lt shorter) before,
            dropLineFrom, opensHere]
          exact (dropLineFrom_comment before before rest).symm
        · have closed : (is '/' c && opensLine before) = false := by
            by_cases slash : c = '/'
            · have notStart := start slash
              have closed : opensLine before = false := by
                refine Bool.eq_false_iff.2 fun opens => ?_
                rw [unread _ (by rw [slash]) opens] at notStart
                cases notStart
              rw [closed, Bool.and_false]
            · simp [slash]
          have passed : (is '/' c && ('/' :: '/' :: rest).head?.any (is '/') && opensLine before)
              = false := by
            rw [List.head?_cons, Option.any_some, is_char '/' '/', beq_self_eq_true,
              Bool.and_true]
            exact closed
          have left : ('/' :: '/' :: rest).drop 2 = rest := rfl
          have less : rest.length < n := Nat.lt_of_succ_lt (Nat.lt_of_succ_lt shorter)
          rw [substituteFrom_comment ih seen left less before, dropLineFrom, passed,
            if_neg Bool.false_ne_true, dropLineFrom, opens]
          exact congrArg (c :: ·) (dropLineFrom_comment (some c) before rest).symm

theorem dropLineComments_eq (s : List Char) :
    Compaction.dropLineComments s = Glyph.dropLineComments s :=
  substituteFrom_lineComment (s.length + 1) s none (Nat.lt_succ_self _) fun _ _ _ => rfl

/-! ### Blanks of characters -/

/-- Glyphs written with their gaps, and one blank more if the text ends with
    one. -/
def written (marks : List (Bool × Char)) (ending : Bool) : List Char :=
  layout marks ++ (if ending then [' '] else [])

/-- Whether a text ends with a blank, given whether there is one before it. -/
def endsBlank : Bool → List Char → Bool
  | gap, [] => gap
  | _, c :: cs => endsBlank (Text.isBlank c) cs

theorem written_cons (gap : Bool) (c : Char) (marks : List (Bool × Char)) (ending : Bool) :
    written ((gap, c) :: marks) ending
      = (if gap then [' ', c] else [c]) ++ written marks ending := by
  simp only [written, layout, List.append_assoc]
  rfl

theorem written_of_gap (s : List Char) :
    written (spots true s) (endsBlank true s)
      = ' ' :: written (spots false (s.dropWhile Text.isBlank))
          (endsBlank false (s.dropWhile Text.isBlank)) := by
  induction s with
  | nil => rfl
  | cons c cs ih =>
    rw [List.dropWhile_cons, spots, endsBlank, isBlank_char]
    by_cases blank : Text.isBlank c = true
    · simpa only [blank, if_true] using ih
    · rw [if_neg blank, if_neg blank, spots, isBlank_char, if_neg blank, written_cons, written_cons,
        endsBlank]
      rfl

/-- Runs of blanks become one blank. -/
theorem substituteFrom_blankRun (n : Nat) (s : List Char) (length : s.length < n)
    (before : Option Char) :
    substituteFrom blankRun (fun _ => [' ']) before s
      = written (spots false s) (endsBlank false s) := by
  induction n generalizing s before with
  | zero => exact absurd length (Nat.not_lt_zero _)
  | succ n ih =>
    cases s with
    | nil => rfl
    | cons c cs =>
      have shorter : cs.length < n := Nat.lt_of_succ_lt_succ length
      rw [spots, endsBlank, isBlank_char]
      by_cases blank : Text.isBlank c = true
      · have hit : blankRun before (c :: cs)
            = some ((), (cs.takeWhile Text.isBlank).length + 1) := by
          simp [blankRun, blank]
        obtain ⟨b, substituted⟩ := substituteFrom_hit hit fun _ => [' ']
        have left : cs.drop (cs.takeWhile Text.isBlank).length = cs.dropWhile Text.isBlank := by
          conv_lhs =>
            enter [2]
            rw [← List.takeWhile_append_dropWhile (p := Text.isBlank) (l := cs)]
          exact List.drop_left
        have less := (List.dropWhile_suffix Text.isBlank (l := cs)).length_le.trans_lt shorter
        rw [substituted, left, ih _ less b, if_pos blank, blank, written_of_gap]
        rfl
      · have miss : blankRun before (c :: cs) = none := by simp [blankRun, blank]
        rw [substituteFrom_miss miss, ih cs shorter, if_neg blank, written_cons,
          Bool.eq_false_iff.2 blank]
        rfl

/-! ### Gaps between tags -/

/-- Crosses out the gaps between tags, given the glyph before the text. -/
def joined : Option Char → List (Bool × Char) → List (Bool × Char)
  | _, [] => []
  | before, (gap, x) :: rest =>
    (gap && !(before.any (is '>') && is '<' x), x) :: joined (some x) rest

/-- Crosses out the gaps before the ends of self-closed tags. -/
def closed : List (Bool × Char) → List (Bool × Char)
  | [] => []
  | (gap, x) :: rest =>
    (gap && !(is '/' x && rest.head?.any fun y => !y.1 && is '>' y.2), x) :: closed rest

/-- Glyphs other than blanks. -/
def Visible (marks : List (Bool × Char)) : Prop := ∀ m ∈ marks, Text.isBlank m.2 = false

theorem Visible.cons {m : Bool × Char} {marks : List (Bool × Char)} (h : Visible (m :: marks)) :
    Text.isBlank m.2 = false ∧ Visible marks :=
  ⟨h m List.mem_cons_self, fun m' mem => h m' (List.mem_cons_of_mem m mem)⟩

/-- Either a tag ends here and the next one begins after a gap, or no blanks
    between tags are seen here. -/
theorem betweenTags_written {rest : List (Bool × Char)} (visible : Visible rest) (ending : Bool)
    (before : Option Char) (x : Char) :
    (∃ more, x = '>' ∧ rest = (true, '<') :: more) ∨
      ((some x = some '>' → rest.head? ≠ some (true, '<')) ∧
        betweenTags before (x :: written rest ending) = none) := by
  by_cases tag : x = '>'
  · subst tag
    cases rest with
    | nil => cases ending <;> exact .inr ⟨nofun, rfl⟩
    | cons m more =>
      obtain ⟨gap, y⟩ := m
      obtain ⟨plain, _⟩ := visible.cons
      cases gap with
      | false => exact .inr ⟨nofun, by simp [betweenTags, written_cons, plain]⟩
      | true =>
        by_cases opens : y = '<'
        · exact .inl ⟨more, rfl, by rw [opens]⟩
        · have blank : Text.isBlank ' ' = true := rfl
          refine .inr ⟨fun _ same => opens ?_, ?_⟩
          · simpa using same
          · simp [betweenTags, written_cons, plain, blank, opens]
  · refine .inr ⟨fun same => absurd (Option.some.inj same) tag, ?_⟩
    unfold betweenTags
    split
    · next cs same => exact absurd (List.cons.inj same).1 tag
    · rfl

theorem substituteFrom_betweenTags (n : Nat) (marks : List (Bool × Char))
    (length : marks.length < n) (visible : Visible marks) (ending : Bool) (b before : Option Char)
    (apart : before = some '>' → marks.head? ≠ some (true, '<')) :
    substituteFrom betweenTags (fun _ => ['>', '<']) b (written marks ending)
      = written (joined before marks) ending := by
  induction n generalizing marks b before with
  | zero => exact absurd length (Nat.not_lt_zero _)
  | succ n ih =>
    cases marks with
    | nil => cases ending <;> rfl
    | cons m rest =>
      obtain ⟨gap, x⟩ := m
      obtain ⟨_, restVisible⟩ := visible.cons
      have shorter : rest.length < n := Nat.lt_of_succ_lt_succ length
      have kept : (gap && !(before.any (is '>') && is '<' x)) = gap := by
        cases gap with
        | false => rfl
        | true =>
          have notBoth : (before.any (is '>') && is '<' x) = false := by
            refine Bool.eq_false_iff.2 fun both => ?_
            obtain ⟨tag, opens⟩ := Bool.and_eq_true_iff.1 both
            obtain ⟨y, rfl, same⟩ := Option.any_eq_true _ _ |>.1 tag
            obtain rfl : y = '>' := by simpa using same
            obtain rfl : x = '<' := by simpa using opens
            exact apart rfl rfl
          rw [notBoth]
          rfl
      have onward (b : Option Char) :
          substituteFrom betweenTags (fun _ => ['>', '<']) b (x :: written rest ending)
            = x :: written (joined (some x) rest) ending := by
        rcases betweenTags_written restVisible ending b x with ⟨more, rfl, rfl⟩ | ⟨restApart, miss⟩
        · have hit : betweenTags b ('>' :: written ((true, '<') :: more) ending)
              = some ((), 2 + 1) := rfl
          obtain ⟨b', substituted⟩ := substituteFrom_hit hit fun _ => ['>', '<']
          have less : more.length < n := Nat.lt_of_succ_lt shorter
          have left : (written ((true, '<') :: more) ending).drop 2 = written more ending := rfl
          rw [substituted, left, ih more less restVisible.cons.2 b' (some '<') nofun]
          rfl
        · rw [substituteFrom_miss miss, ih rest shorter restVisible _ _ restApart]
      rw [joined, kept, written_cons, written_cons]
      cases gap with
      | false => exact onward b
      | true =>
        have miss : betweenTags b (' ' :: x :: written rest ending) = none := rfl
        rw [if_pos rfl, List.cons_append, List.singleton_append, substituteFrom_miss miss, onward]
        rfl

theorem visible_joined {before : Option Char} {marks : List (Bool × Char)} (h : Visible marks) :
    Visible (joined before marks) := by
  induction marks generalizing before with
  | nil => exact h
  | cons m rest ih =>
    obtain ⟨plain, restVisible⟩ := h.cons
    intro m' mem
    rcases List.mem_cons.1 mem with rfl | later
    · exact plain
    · exact ih restVisible m' later

/-- Either a self-closed tag ends after this gap, or no blanks before such an end
    are seen here. -/
theorem beforeSelfClose_written {x : Char} {rest : List (Bool × Char)}
    (visible : Visible ((true, x) :: rest)) (ending : Bool) (before : Option Char) :
    (∃ more, x = '/' ∧ rest = (false, '>') :: more) ∨
      ((is '/' x && rest.head?.any fun y => !y.1 && is '>' y.2) = false ∧
        beforeSelfClose before (' ' :: x :: written rest ending) = none) := by
  obtain ⟨plain, restVisible⟩ := visible.cons
  have front : ((' ' :: x :: written rest ending).takeWhile Text.isBlank).length = 1 := by
    have blank : Text.isBlank ' ' = true := rfl
    simp [blank, plain]
  have missed (no : Text.dropWord ['/', '>'] (x :: written rest ending) = none) :
      beforeSelfClose before (' ' :: x :: written rest ending) = none := by
    simp [beforeSelfClose, front, no]
  by_cases slash : x = '/'
  · subst slash
    cases rest with
    | nil => cases ending <;> exact .inr ⟨rfl, rfl⟩
    | cons m more =>
      obtain ⟨gap, y⟩ := m
      cases gap with
      | true => exact .inr ⟨by simp, missed rfl⟩
      | false =>
        by_cases closes : y = '>'
        · exact .inl ⟨more, rfl, by rw [closes]⟩
        · refine .inr ⟨by simp [closes], missed ?_⟩
          simp [written_cons, Text.dropWord, Ne.symm closes]
  · exact .inr ⟨by simp [slash], missed (by simp [Text.dropWord, Ne.symm slash])⟩

theorem substituteFrom_selfClose (n : Nat) (marks : List (Bool × Char))
    (length : marks.length < n) (visible : Visible marks) (ending : Bool) (b : Option Char) :
    substituteFrom beforeSelfClose (fun _ => ['/', '>']) b (written marks ending)
      = written (closed marks) ending := by
  induction n generalizing marks b with
  | zero => exact absurd length (Nat.not_lt_zero _)
  | succ n ih =>
    cases marks with
    | nil => cases ending <;> rfl
    | cons m rest =>
      obtain ⟨gap, x⟩ := m
      obtain ⟨plain, restVisible⟩ := visible.cons
      have shorter : rest.length < n := Nat.lt_of_succ_lt_succ length
      have onward (b : Option Char) :
          substituteFrom beforeSelfClose (fun _ => ['/', '>']) b (x :: written rest ending)
            = x :: written (closed rest) ending := by
        have miss : beforeSelfClose b (x :: written rest ending) = none := by
          have plain : Text.isBlank x = false := plain
          simp [beforeSelfClose, plain]
        rw [substituteFrom_miss miss, ih rest shorter restVisible]
      rw [closed, written_cons, written_cons]
      cases gap with
      | false => exact onward b
      | true =>
        rcases beforeSelfClose_written visible ending b with ⟨more, rfl, rfl⟩ | ⟨stays, miss⟩
        · have hit : beforeSelfClose b (' ' :: '/' :: written ((false, '>') :: more) ending)
              = some ((), 2 + 1) := rfl
          obtain ⟨b', substituted⟩ := substituteFrom_hit hit fun _ => ['/', '>']
          have less : more.length < n := Nat.lt_of_succ_lt shorter
          have left : ('/' :: written ((false, '>') :: more) ending).drop 2 = written more ending :=
            rfl
          rw [if_pos rfl, List.cons_append, List.singleton_append, substituted, left,
            ih more less restVisible.cons.2]
          rfl
        · rw [if_pos rfl, List.cons_append, List.singleton_append, substituteFrom_miss miss, onward,
            stays]
          rfl

/-! ### The ends of a text -/

theorem trimEnd_layout {marks : List (Bool × Char)} (visible : Visible marks) :
    trimEnd (layout marks) = layout marks := by
  rcases List.eq_nil_or_concat marks with rfl | ⟨front, ⟨gap, x⟩, rfl⟩
  · rfl
  · have plain : Text.isBlank x = false := visible (gap, x) (by simp)
    have last : layout [(gap, x)] = (if gap then [' '] else []) ++ [x] := by cases gap <;> rfl
    rw [List.concat_eq_append, layout_append, last, ← List.append_assoc, trimEnd,
      dropTrailing_append_singleton, if_neg (Bool.eq_false_iff.1 plain)]

theorem trimEnd_written {marks : List (Bool × Char)} (visible : Visible marks) (ending : Bool) :
    trimEnd (written marks ending) = layout marks := by
  cases ending with
  | false => rw [written, if_neg Bool.false_ne_true, List.append_nil, trimEnd_layout visible]
  | true =>
    have blank : Text.isBlank ' ' = true := rfl
    rw [written, if_pos rfl, trimEnd, dropTrailing_append_singleton, if_pos blank]
    exact trimEnd_layout visible

theorem trim_written {gap : Bool} {x : Char} {rest : List (Bool × Char)}
    (visible : Visible ((gap, x) :: rest)) (ending : Bool) :
    trim (written ((gap, x) :: rest) ending) = layout ((false, x) :: rest) := by
  have plain : Text.isBlank x = false := visible.cons.1
  have blank : Text.isBlank ' ' = true := rfl
  have front : trimStart (written ((gap, x) :: rest) ending)
      = written ((false, x) :: rest) ending := by
    rw [written_cons, written_cons]
    cases gap <;> simp [trimStart, plain, blank]
  have visible' : Visible ((false, x) :: rest) := by
    intro m mem
    rcases List.mem_cons.1 mem with rfl | later
    · exact plain
    · exact visible m (List.mem_cons_of_mem _ later)
  rw [trim, front, trimEnd_written visible']

theorem visible_closed {marks : List (Bool × Char)} (h : Visible marks) :
    Visible (closed marks) := by
  induction marks with
  | nil => exact h
  | cons m rest ih =>
    obtain ⟨plain, restVisible⟩ := h.cons
    intro m' mem
    rcases List.mem_cons.1 mem with rfl | later
    · exact plain
    · exact ih restVisible m' later

/-- Crossing out the gaps between tags takes no gap away before the end of a
    tag. -/
theorem closes_joined (x : Char) (rest : List (Bool × Char)) :
    (joined (some x) rest).head?.any (fun y => !y.1 && is '>' y.2)
      = rest.head?.any fun y => !y.1 && is '>' y.2 := by
  cases rest with
  | nil => rfl
  | cons m more =>
    obtain ⟨gap, y⟩ := m
    by_cases closes : y = '>'
    · simp [joined, closes]
    · have other : (y == '>') = false := by simpa using closes
      simp [joined, other]

theorem closed_joined (b : Char) (marks : List (Bool × Char)) :
    closed (joined (some b) marks) = needed (some b) marks := by
  induction marks generalizing b with
  | nil => rfl
  | cons m rest ih =>
    obtain ⟨gap, x⟩ := m
    rw [joined, closed, closes_joined, ih, needed, Option.any_some, Option.any_some, keepsGap,
      Bool.and_assoc]

theorem tighten_eq (s : List Char) : Compaction.tighten s = Glyph.tighten s := by
  have visible : Visible (spots false s) := visible_spots false s
  have collapsed : collapseBlanks s = written (spots false s) (endsBlank false s) :=
    substituteFrom_blankRun _ s (Nat.lt_succ_self _) none
  have tagged : joinTags (written (spots false s) (endsBlank false s))
      = written (joined none (spots false s)) (endsBlank false s) :=
    substituteFrom_betweenTags _ _ (Nat.lt_succ_self _) visible _ none none nofun
  have ended : tightenSelfClose (written (joined none (spots false s)) (endsBlank false s))
      = written (closed (joined none (spots false s))) (endsBlank false s) :=
    substituteFrom_selfClose _ _ (Nat.lt_succ_self _) (visible_joined visible) _ none
  rw [Compaction.tighten, collapsed, tagged, ended, Glyph.tighten]
  cases same : spots false s with
  | nil => cases endsBlank false s <;> rfl
  | cons m rest =>
    obtain ⟨gap, x⟩ := m
    have visible' : Visible (closed (joined none ((gap, x) :: rest))) :=
      visible_closed (visible_joined (same ▸ visible))
    rw [joined, closed] at visible' ⊢
    rw [trim_written visible', needed, Option.any_none, Bool.and_false, closed_joined]

/-! ### All passes -/

theorem dropComments_eq (s : List Char) : Compaction.dropComments s = Glyph.dropComments s := by
  rw [Compaction.dropComments, Glyph.dropComments, dropLineComments_eq,
    dropEnclosed_eq (by decide) (by decide), dropEnclosed_eq (by decide) (by decide)]

end PageTree.Compaction
