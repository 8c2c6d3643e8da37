/-
  PageTree/Proofs/Callback/Parameters.lean
  ========================================
  **Parameter lists are cut where they were joined.**

  A parameter list is cut at the commas outside of brackets, for which the brackets
  are counted without regard to their kind.  A list that was joined by commas is cut
  into what was joined if and only if the count is above zero at each comma of a
  parameter and back at zero at its end.  That is so if a parameter has its brackets in
  pairs and its commas only between them.

    * `splitParams_comma_iff`: the first parameter of a list;
    * `splitParams_join_iff`: the parameters of a joined list;
    * `BracketsPaired.depthAfter_eq`: what the count comes to;
    * `splitParams_join`: the parameters of a printed list.
-/
import Mathlib
import PageTree.Callback.Source

namespace PageTree.Callback

open PageTree.Text

/-! ### Characters that trimming keeps -/

section

variable {keeps : Char → Bool}

theorem filter_dropTrailing {p : Char → Bool} (apart : ∀ c, p c = true → keeps c = false)
    (s : List Char) : (dropTrailing p s).filter keeps = s.filter keeps := by
  induction s using List.reverseRecOn with
  | nil => rfl
  | append_singleton s c ih =>
    rw [dropTrailing_append_singleton]
    split
    · next dropped => simp [ih, apart c dropped]
    · rfl

theorem filter_trimStart (apart : ∀ c, isBlank c = true → keeps c = false) (s : List Char) :
    (trimStart s).filter keeps = s.filter keeps := by
  induction s with
  | nil => rfl
  | cons c cs ih =>
    rw [trimStart, List.dropWhile_cons]
    split
    · next blank => simpa [trimStart, apart c blank] using ih
    · rfl

theorem filter_trim (apart : ∀ c, isBlank c = true → keeps c = false) (s : List Char) :
    (trim s).filter keeps = s.filter keeps := by
  rw [trim, trimEnd, filter_dropTrailing apart, filter_trimStart apart]

theorem isBlank_of_trim_eq_nil {s : List Char} (empty : trim s = []) {c : Char} (mem : c ∈ s) :
    isBlank c = true := by
  have none : s.filter (!isBlank ·) = [] := by
    rw [← filter_trim (by simp), empty]
    rfl
  simpa using List.filter_eq_nil_iff.1 none c mem

end

/-! ### Counting brackets -/

/-- The depth of brackets after a character; closing brackets that were not opened do
    not count. -/
def depthStep (depth : Nat) (c : Char) : Nat :=
  if c == '\x7b' || c == '[' || c == '(' then depth + 1
  else if c == '\x7d' || c == ']' || c == ')' then depth - 1
  else depth

def depthAfter (depth : Nat) (s : List Char) : Nat := s.foldl depthStep depth

/-- Each comma of the text lies between brackets. -/
def CommasInside (depth : Nat) (s : List Char) : Prop :=
  ∀ t, t ++ [','] <+: s → 0 < depthAfter depth t

theorem CommasInside.tail {depth : Nat} {c : Char} {cs : List Char}
    (h : CommasInside depth (c :: cs)) : CommasInside (depthStep depth c) cs := by
  intro t comma
  exact h (c :: t) ((List.prefix_cons_inj c).2 comma)

theorem splitAtCommas_cons {depth : Nat} {c : Char} (current cs : List Char)
    (kept : c = ',' → 0 < depth) :
    splitAtCommas depth current (c :: cs)
      = splitAtCommas (depthStep depth c) (c :: current) cs := by
  rw [splitAtCommas, depthStep]
  split_ifs with opening closing cut
  · rfl
  · rfl
  · obtain ⟨comma, outside⟩ := by simpa using cut
    exact absurd (kept comma) (by omega)
  · rfl

/-- By induction on the parameter. -/
theorem splitAtCommas_append {depth : Nat} {p : List Char} (inside : CommasInside depth p)
    (current rest : List Char) :
    splitAtCommas depth current (p ++ rest)
      = splitAtCommas (depthAfter depth p) (p.reverse ++ current) rest := by
  induction p generalizing depth current with
  | nil => rfl
  | cons c cs ih =>
    have kept (comma : c = ',') : 0 < depth := inside [] (by simp [comma])
    rw [List.cons_append, splitAtCommas_cons _ _ kept, ih inside.tail]
    simp [depthAfter]

/-! ### The first cut -/

theorem CommasInside.cons {depth : Nat} {c : Char} {cs : List Char}
    (kept : c = ',' → 0 < depth) (later : CommasInside (depthStep depth c) cs) :
    CommasInside depth (c :: cs) := by
  intro t comma
  cases t with
  | nil => exact kept (by simpa [eq_comm] using comma)
  | cons d ds =>
    obtain ⟨rfl, rest⟩ := List.cons_prefix_cons.1 comma
    exact later ds rest

/-- A text that has a comma outside of brackets has a first one. -/
theorem exists_first_comma {depth : Nat} {p : List Char} (outside : ¬ CommasInside depth p) :
    ∃ t u, p = t ++ ',' :: u ∧ CommasInside depth t ∧ depthAfter depth t = 0 := by
  induction p generalizing depth with
  | nil => exact absurd (fun t comma => by simpa using comma.length_le) outside
  | cons c cs ih =>
    by_cases kept : c = ',' → 0 < depth
    · obtain ⟨t, u, rfl, inside, zero⟩ := ih fun later => outside (.cons kept later)
      exact ⟨c :: t, u, rfl, .cons kept inside, zero⟩
    · obtain ⟨rfl, zero⟩ : c = ',' ∧ depth = 0 := by simpa using kept
      exact ⟨[], cs, rfl, fun t comma => by simpa using comma.length_le, zero⟩

/-- The first piece goes on from what is under way. -/
theorem exists_first_piece (depth : Nat) (current s : List Char) :
    ∃ t more, splitAtCommas depth current s = (current.reverse ++ t) :: more := by
  induction s generalizing depth current with
  | nil => exact ⟨[], [], by simp [splitAtCommas]⟩
  | cons c cs ih =>
    rw [splitAtCommas]
    split_ifs with opening closing cut
    · obtain ⟨t, more, found⟩ := ih (depth + 1) (c :: current)
      exact ⟨c :: t, more, by simpa using found⟩
    · obtain ⟨t, more, found⟩ := ih (depth - 1) (c :: current)
      exact ⟨c :: t, more, by simpa using found⟩
    · exact ⟨[], splitAtCommas depth [] cs, by simp⟩
    · obtain ⟨t, more, found⟩ := ih depth (c :: current)
      exact ⟨c :: t, more, by simpa using found⟩

theorem splitParams_of_pieces {s t : List Char} {more : List (List Char)}
    (pieces : splitAtCommas 0 [] s = t :: more) (visible : trim t ≠ []) :
    splitParams s = trim t :: (more.map trim).filter (!·.isEmpty) := by
  rw [splitParams, pieces, List.map_cons, List.filter_cons_of_pos (by simpa using visible)]

/-- Trimming keeps all commas. -/
theorem count_comma_of_trim_eq {s t : List Char} (same : trim s = trim t) :
    s.count ',' = t.count ',' := by
  have apart : ∀ c, isBlank c = true → (c == ',') = false := by
    rintro c blank
    rw [beq_eq_false_iff_ne]
    rintro rfl
    exact absurd blank (by decide)
  rw [List.count_eq_length_filter, List.count_eq_length_filter, ← filter_trim apart s, same,
    filter_trim apart]

/-- Something visible stands in front of every comma. -/
def Fronted (r : List Char) : Prop := ∀ t u, r = t ++ ',' :: u → trim t ≠ []

section

variable {r : List Char} (visible : trim r ≠ []) (fronted : Fronted r)

include fronted in
theorem splitParams_of_outside (outside : ¬ CommasInside 0 r) (rest : List Char)
    (L : List (List Char)) : splitParams (r ++ rest) ≠ trim r :: L := by
  obtain ⟨t, u, rfl, inside, zero⟩ := exists_first_comma outside
  have pieces : splitAtCommas 0 [] ((t ++ ',' :: u) ++ rest)
      = t :: splitAtCommas 0 [] (u ++ rest) := by
    rw [List.append_assoc, splitAtCommas_append inside, zero, List.cons_append, splitAtCommas]
    simp
  rw [splitParams_of_pieces pieces (fronted t u rfl)]
  intro same
  have count := count_comma_of_trim_eq (List.cons.inj same).1
  simp [List.count_append] at count

include visible in
theorem splitParams_of_inside {rest : List Char} (inside : CommasInside 0 r)
    (zero : depthAfter 0 r = 0) :
    splitParams (r ++ ',' :: rest) = trim r :: splitParams rest := by
  have pieces : splitAtCommas 0 [] (r ++ ',' :: rest) = r :: splitAtCommas 0 [] rest := by
    rw [splitAtCommas_append inside, zero, splitAtCommas]
    simp
  exact splitParams_of_pieces pieces visible

include visible fronted

/-- **The first parameter of a list** is the one in front of the comma if and only if the
    comma is outside of brackets and no earlier one is. -/
theorem splitParams_comma_iff {rest : List Char} {L : List (List Char)} :
    splitParams (r ++ ',' :: rest) = trim r :: L ↔
      CommasInside 0 r ∧ depthAfter 0 r = 0 ∧ splitParams rest = L := by
  by_cases inside : CommasInside 0 r
  · by_cases zero : depthAfter 0 r = 0
    · rw [splitParams_of_inside visible inside zero]
      simp [inside, zero]
    · -- the comma is not seen, and so the first piece has more commas
      have unseen : splitAtCommas 0 [] (r ++ ',' :: rest)
          = splitAtCommas (depthAfter 0 r) (',' :: r.reverse) rest := by
        rw [splitAtCommas_append inside, splitAtCommas_cons _ _ fun _ => Nat.pos_of_ne_zero zero,
          List.append_nil]
        rfl
      obtain ⟨t, more, pieces⟩ := exists_first_piece (depthAfter 0 r) (',' :: r.reverse) rest
      have whole : (',' :: r.reverse).reverse ++ t = r ++ ',' :: t := by simp
      rw [← unseen, whole] at pieces
      have longer : trim (r ++ ',' :: t) ≠ trim r := by
        intro same
        have count := count_comma_of_trim_eq same
        simp [List.count_append] at count
      have present : trim (r ++ ',' :: t) ≠ [] := by
        intro empty
        have count := count_comma_of_trim_eq (t := []) empty
        simp [List.count_append] at count
      rw [splitParams_of_pieces pieces present]
      simp [longer, zero]
  · have other := splitParams_of_outside fronted inside (',' :: rest) L
    simp [other, inside]

theorem splitParams_last_iff : splitParams r = [trim r] ↔ CommasInside 0 r := by
  by_cases inside : CommasInside 0 r
  · have pieces : splitAtCommas 0 [] r = [r] := by
      have whole := splitAtCommas_append inside [] []
      rw [List.append_nil, List.append_nil, splitAtCommas, List.reverse_reverse] at whole
      exact whole
    rw [splitParams_of_pieces pieces visible]
    simp [inside]
  · have other := splitParams_of_outside fronted inside [] []
    rw [List.append_nil] at other
    simp [other, inside]

end

/-! ### Parameters -/

/-- In the text every bracket of a kind is closed after it was opened, and none is closed
    that was not. -/
structure Balanced (opens closes : Char) (s : List Char) : Prop where
  opened : ∀ t, t <+: s → t.count closes ≤ t.count opens
  closed : s.count closes = s.count opens

/-- Brackets of every kind stand in pairs. -/
structure BracketsPaired (s : List Char) : Prop where
  braces : Balanced '\x7b' '\x7d' s
  brackets : Balanced '[' ']' s
  parens : Balanced '(' ')' s

/-- A parameter as a printed list may have it: without parentheses, and with braces and
    square brackets in pairs. -/
structure IsWellFormed (p : List Char) : Prop where
  unparenthesised : '(' ∉ p ∧ ')' ∉ p
  braces : Balanced '\x7b' '\x7d' p
  brackets : Balanced '[' ']' p

/-- A parameter as it is recovered: well-formed, trimmed, and with commas only between
    its brackets. -/
structure IsParameter (p : List Char) : Prop extends IsWellFormed p where
  nonempty : p ≠ []
  trimmed : trim p = p
  commas : ∀ t, t ++ [','] <+: p →
    t.count '\x7d' < t.count '\x7b' ∨ t.count ']' < t.count '['

instance (opens closes : Char) (s : List Char) : Decidable (Balanced opens closes s) :=
  decidable_of_iff ((∀ t ∈ s.inits, t.count closes ≤ t.count opens) ∧
      s.count closes = s.count opens)
    ⟨fun ⟨opened, closed⟩ => ⟨fun t h => opened t ((List.mem_inits _ _).2 h), closed⟩,
      fun h => ⟨fun t mem => h.opened t ((List.mem_inits _ _).1 mem), h.closed⟩⟩

instance (p : List Char) : Decidable (IsWellFormed p) :=
  decidable_of_iff (('(' ∉ p ∧ ')' ∉ p) ∧ Balanced '\x7b' '\x7d' p ∧ Balanced '[' ']' p)
    ⟨fun ⟨plain, braces, brackets⟩ => ⟨plain, braces, brackets⟩,
      fun h => ⟨h.unparenthesised, h.braces, h.brackets⟩⟩

instance (p : List Char) : Decidable (IsParameter p) :=
  decidable_of_iff (IsWellFormed p ∧ p ≠ [] ∧ trim p = p ∧ ∀ t ∈ p.inits, t ++ [','] <+: p →
      t.count '\x7d' < t.count '\x7b' ∨ t.count ']' < t.count '[')
    ⟨fun ⟨wellFormed, nonempty, trimmed, commas⟩ => ⟨wellFormed, nonempty, trimmed, fun t comma =>
        commas t ((List.mem_inits _ _).2 ((List.prefix_append t _).trans comma)) comma⟩,
      fun h => ⟨h.toIsWellFormed, h.nonempty, h.trimmed, fun t _ => h.commas t⟩⟩

theorem depthStep_eq (depth : Nat) (c : Char) :
    depthStep depth c = depth + ([c].count '\x7b' + [c].count '[' + [c].count '(')
      - ([c].count '\x7d' + [c].count ']' + [c].count ')') := by
  by_cases brace : c = '\x7b'
  · subst brace; rfl
  by_cases bracket : c = '['
  · subst bracket; rfl
  by_cases paren : c = '('
  · subst paren; rfl
  by_cases brace' : c = '\x7d'
  · subst brace'; rfl
  by_cases bracket' : c = ']'
  · subst bracket'; rfl
  by_cases paren' : c = ')'
  · subst paren'; rfl
  simp [depthStep, *]

/-- The depth at every place of a text with its brackets in pairs: the brackets opened so
    far, less those closed. -/
theorem BracketsPaired.depthAfter_eq {p : List Char} (h : BracketsPaired p) {t : List Char}
    (within : t <+: p) : depthAfter 0 t + (t.count '\x7d' + t.count ']' + t.count ')')
      = t.count '\x7b' + t.count '[' + t.count '(' := by
  induction t using List.reverseRecOn with
  | nil => rfl
  | append_singleton t c ih =>
    have shorter : t <+: p := (List.prefix_append t [c]).trans within
    have braces := h.braces.opened _ within
    have brackets := h.brackets.opened _ within
    have parens := h.parens.opened _ within
    have before := ih shorter
    rw [List.count_append, List.count_append] at braces brackets parens
    rw [depthAfter, List.foldl_concat, depthStep_eq, ← depthAfter]
    simp only [List.count_append]
    omega

theorem BracketsPaired.depthAfter_self {p : List Char} (h : BracketsPaired p) :
    depthAfter 0 p = 0 := by
  have depth := h.depthAfter_eq List.prefix_rfl
  rw [h.braces.closed, h.brackets.closed, h.parens.closed] at depth
  omega

theorem IsWellFormed.bracketsPaired {p : List Char} (h : IsWellFormed p) : BracketsPaired p where
  braces := h.braces
  brackets := h.brackets
  parens :=
    { opened := fun t within => by
        rw [List.count_eq_zero.2 fun mem => h.unparenthesised.2 (within.subset mem)]
        exact Nat.zero_le _
      closed := by
        rw [List.count_eq_zero.2 h.unparenthesised.1, List.count_eq_zero.2 h.unparenthesised.2] }

theorem IsParameter.commasInside {p : List Char} (h : IsParameter p) : CommasInside 0 p := by
  intro t comma
  have within : t <+: p := (List.prefix_append t _).trans comma
  have depth := h.bracketsPaired.depthAfter_eq within
  have braces := h.braces.opened _ within
  have brackets := h.brackets.opened _ within
  have parens := h.bracketsPaired.parens.opened _ within
  have inside := h.commas t comma
  omega

/-! ### Parameter lists -/

/-- **The parameters of a joined list** are the joined ones, trimmed, if and only if every
    comma of a parameter is between brackets, and the brackets of every one but the last
    are closed at its end, all brackets being counted. -/
theorem splitParams_join_iff {ps : List (List Char)}
    (parameters : ∀ p ∈ ps, trim p ≠ [] ∧ Fronted p) :
    splitParams (List.intercalate [','] ps) = ps.map trim ↔
      (∀ p ∈ ps, CommasInside 0 p) ∧ ∀ p ∈ ps.dropLast, depthAfter 0 p = 0 := by
  induction ps with
  | nil => simp [splitParams, splitAtCommas, trim, trimStart, trimEnd, dropTrailing]
  | cons p ps ih =>
    obtain ⟨⟨visible, fronted⟩, others⟩ := List.forall_mem_cons.1 parameters
    cases ps with
    | nil => simp [splitParams_last_iff visible fronted]
    | cons q qs =>
      rw [List.intercalate_cons_cons, List.append_assoc, List.singleton_append, List.map_cons,
        splitParams_comma_iff visible fronted, ih others, List.dropLast_cons_cons]
      simp only [List.forall_mem_cons]
      tauto

theorem IsParameter.fronted {p : List Char} (h : IsParameter p) : Fronted p := by
  intro t u spelled empty
  have none {c : Char} (visible : isBlank c = false) : t.count c = 0 := by
    refine List.count_eq_zero.2 fun mem => ?_
    rw [isBlank_of_trim_eq_nil empty mem] at visible
    cases visible
  have inside := h.commas t ⟨u, by simp [spelled]⟩
  rw [none (c := '\x7b') (by decide), none (c := '[') (by decide)] at inside
  omega

/-- **The parameters of a printed list**: the printed ones. -/
theorem splitParams_join {ps : List (List Char)} (parameters : ∀ p ∈ ps, IsParameter p) :
    splitParams (List.intercalate [','] ps) = ps := by
  have trimmed : ps.map trim = ps := by
    rw [List.map_congr_left fun p mem => (parameters p mem).trimmed, List.map_id']
  have visible : ∀ p ∈ ps, trim p ≠ [] ∧ Fronted p := fun p mem =>
    ⟨(parameters p mem).trimmed.symm ▸ (parameters p mem).nonempty, (parameters p mem).fronted⟩
  have cut : (∀ p ∈ ps, CommasInside 0 p) ∧ ∀ p ∈ ps.dropLast, depthAfter 0 p = 0 :=
    ⟨fun p mem => (parameters p mem).commasInside,
      fun p mem => (parameters p (List.dropLast_subset ps mem)).bracketsPaired.depthAfter_self⟩
  rw [(splitParams_join_iff visible).2 cut, trimmed]

end PageTree.Callback
