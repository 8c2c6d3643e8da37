/-
  PageTree/Proofs/Reversal.lean
  =============================
  **Paths made from patterns.**

  A segment of a path is a text that is not empty and holds neither a slash nor a
  character that begins a query or a fragment.  A path that is joined from segments
  is cut into these segments again.  What a match has captured are segments, so a
  matched path can be made anew from what was captured; but a value that is no
  segment does not survive in a path, because nothing is escaped.

    * `Path.segments_ofSegments`: joined segments are found again.
    * `RoutePattern.reverse_of_capture`: a matched path, made from what it captured.
    * `RoutePattern.capture_of_reverse_iff`: which values a path gives back.
-/
import Mathlib
import PageTree.Route.Pattern

namespace PageTree

/-! ### Segments -/

/-- A text that can stand between the slashes of a path. -/
def IsSegment (s : String) : Prop := s ≠ "" ∧ ∀ c ∈ s.toList, c ≠ '/' ∧ c ≠ '?' ∧ c ≠ '#'

-- The search of instances would run through every character, not through those of the text.
instance (s : String) : Decidable (IsSegment s) :=
  have := List.decidableBAll (fun c => c ≠ '/' ∧ c ≠ '?' ∧ c ≠ '#') s.toList
  instDecidableAnd

namespace Path

theorem cutAtSlashes_ne_nil (l : List Char) : cutAtSlashes l ≠ [] := by
  cases l with
  | nil => simp [cutAtSlashes]
  | cons c cs =>
    rw [cutAtSlashes]
    split
    · simp
    · split <;> simp

theorem cutAtSlashes_slash (l : List Char) : cutAtSlashes ('/' :: l) = [] :: cutAtSlashes l := by
  obtain ⟨s, ss, cut⟩ := List.exists_cons_of_ne_nil (cutAtSlashes_ne_nil l)
  simp [cutAtSlashes, cut]

theorem cutAtSlashes_cons {c : Char} {l s : List Char} {ss : List (List Char)} (ordinary : c ≠ '/')
    (cut : cutAtSlashes l = s :: ss) : cutAtSlashes (c :: l) = (c :: s) :: ss := by
  simp [cutAtSlashes, cut, ordinary]

theorem cutAtSlashes_append {s l t : List Char} {ts : List (List Char)} (plain : '/' ∉ s)
    (cut : cutAtSlashes l = t :: ts) : cutAtSlashes (s ++ l) = (s ++ t) :: ts := by
  induction s with
  | nil => exact cut
  | cons c s ih =>
    rw [List.mem_cons, not_or] at plain
    exact cutAtSlashes_cons (Ne.symm plain.1) (ih plain.2)

/-- What is cut out holds no slash and nothing new. -/
theorem of_mem_cutAtSlashes {l s : List Char} (h : s ∈ cutAtSlashes l) : ∀ c ∈ s, c ≠ '/' ∧ c ∈ l := by
  induction l generalizing s with
  | nil =>
    obtain rfl : s = [] := by simpa [cutAtSlashes] using h
    simp
  | cons d l ih =>
    intro c hc
    obtain ⟨t, ts, cut⟩ := List.exists_cons_of_ne_nil (cutAtSlashes_ne_nil l)
    rw [cut] at ih
    by_cases slash : d = '/'
    · subst slash
      rw [cutAtSlashes_slash, cut] at h
      rcases List.mem_cons.1 h with rfl | h
      · cases hc
      · exact ⟨(ih h c hc).1, List.mem_cons_of_mem _ (ih h c hc).2⟩
    · rw [cutAtSlashes_cons slash cut] at h
      rcases List.mem_cons.1 h with rfl | h
      · rcases List.mem_cons.1 hc with rfl | hc
        · exact ⟨slash, List.mem_cons_self⟩
        · have inside := ih List.mem_cons_self c hc
          exact ⟨inside.1, List.mem_cons_of_mem _ inside.2⟩
      · have inside := ih (List.mem_cons_of_mem _ h) c hc
        exact ⟨inside.1, List.mem_cons_of_mem _ inside.2⟩

/-- The segments of a path, as lists of characters. -/
def pieces (l : List Char) : List (List Char) := (cutAtSlashes (bare l)).filter (!·.isEmpty)

theorem segments_eq (path : String) : segments path = (pieces path.toList).map String.ofList := rfl

theorem bare_append {s : List Char} (plain : ∀ c ∈ s, c ≠ '?' ∧ c ≠ '#') (l : List Char) :
    bare (s ++ l) = s ++ bare l := by
  apply List.takeWhile_append_of_pos
  intro c hc
  simp [plain c hc]

theorem pieces_slash (l : List Char) : pieces ('/' :: l) = pieces l := by
  have kept : bare ('/' :: l) = '/' :: bare l := by simp [bare]
  rw [pieces, kept, cutAtSlashes_slash]
  simp [pieces]

theorem pieces_segment {s : String} (segment : IsSegment s) :
    pieces s.toList = [s.toList] := by
  have kept := bare_append (fun c hc => (segment.2 c hc).2) []
  have cut := cutAtSlashes_append (fun h => (segment.2 _ h).1 rfl)
    (show cutAtSlashes [] = [] :: [] from rfl)
  simp only [List.append_nil, show bare [] = [] from rfl] at kept cut
  simp [pieces, kept, cut, segment.1]

theorem pieces_segment_slash {s : String} (segment : IsSegment s) (l : List Char) :
    pieces (s.toList ++ '/' :: l) = s.toList :: pieces l := by
  have kept := bare_append (fun c hc => (segment.2 c hc).2) ('/' :: l)
  have further : bare ('/' :: l) = '/' :: bare l := by simp [bare]
  have cut := cutAtSlashes_append (fun h => (segment.2 _ h).1 rfl) (cutAtSlashes_slash (bare l))
  rw [pieces, kept, further, cut]
  simp [pieces, segment.1]

theorem isSegment_of_mem_segments {path s : String} (h : s ∈ segments path) : IsSegment s := by
  obtain ⟨l, hl, rfl⟩ := List.mem_map.1 h
  obtain ⟨cut, filled⟩ := List.mem_filter.1 hl
  refine ⟨by simpa using filled, ?_⟩
  intro c hc
  rw [String.toList_ofList] at hc
  obtain ⟨plain, inside⟩ := of_mem_cutAtSlashes cut c hc
  have kept := List.mem_takeWhile_imp inside
  simp only [Bool.and_eq_true, bne_iff_ne, ne_eq] at kept
  exact ⟨plain, kept⟩

theorem segments_slash (path : String) : segments ("/" ++ path) = segments path := by
  rw [segments_eq, segments_eq, String.toList_append]
  exact congrArg _ (pieces_slash path.toList)

/-- Segments in front of a text that may be anything. -/
theorem segments_join_concat {ss : List String} (all : ∀ s ∈ ss, IsSegment s) (rest : String) :
    segments (join (ss ++ [rest])) = ss ++ segments rest := by
  induction ss with
  | nil => simp [join]
  | cons s ss ih =>
    rw [List.forall_mem_cons] at all
    have joined : (join (s :: ss ++ [rest])).toList
        = s.toList ++ '/' :: (join (ss ++ [rest])).toList := by
      rw [join, List.cons_append, String.intercalate_cons_of_ne_nil (by simp)]
      simp [join]
    rw [segments_eq, joined, pieces_segment_slash all.1, List.map_cons, String.ofList_toList,
      ← segments_eq, ih all.2, List.cons_append]

/-- A path that is joined from segments is cut into them. -/
theorem segments_ofSegments {ss : List String} (all : ∀ s ∈ ss, IsSegment s) :
    segments (ofSegments ss) = ss := by
  rw [ofSegments, segments_slash]
  rcases List.eq_nil_or_concat ss with rfl | ⟨before, last, rfl⟩
  · rfl
  · rw [List.concat_eq_append] at all ⊢
    rw [segments_join_concat fun s hs => all s (by simp [hs])]
    rw [segments_eq, pieces_segment (all last (by simp))]
    simp

/-! ### Joined segments without slashes at their ends -/

theorem join_eq_empty_iff {ss : List String} (all : ∀ s ∈ ss, IsSegment s) :
    join ss = "" ↔ ss = [] := by
  constructor
  · intro empty
    have found := segments_ofSegments all
    rw [ofSegments, empty] at found
    exact found.symm
  · rintro rfl
    rfl

/-- Segments may be joined in two goes. -/
theorem join_append_join (ss : List String) {ts : List String} (ne : ts ≠ []) :
    join (ss ++ [join ts]) = join (ss ++ ts) := by
  by_cases empty : ss = []
  · simp [empty, join]
  · simp [join, String.intercalate_append_of_ne_nil empty, ne]

theorem trimSlashes_eq_self {s : String} (first : s.toList.head? ≠ some '/')
    (last : s.toList.getLast? ≠ some '/') : trimSlashes s = s := by
  have front : s.toList.dropWhile (· == '/') = s.toList := by
    cases chars : s.toList with
    | nil => rfl
    | cons c cs =>
      rw [chars] at first
      simpa using first
  have back : Text.dropTrailing (· == '/') s.toList = s.toList := by
    rcases List.eq_nil_or_concat s.toList with chars | ⟨before, c, chars⟩
    · rw [chars]
      rfl
    · rw [List.concat_eq_append] at chars
      rw [chars, List.getLast?_concat] at last
      rw [chars, Text.dropTrailing_append_singleton, if_neg (by simpa using last)]
  rw [trimSlashes, front, back, String.ofList_toList]

theorem trimSlashes_join {ss : List String} (all : ∀ s ∈ ss, IsSegment s) :
    trimSlashes (join ss) = join ss := by
  apply trimSlashes_eq_self
  · cases ss with
    | nil => simp [join]
    | cons s ss =>
      obtain ⟨filled, plain⟩ := all s (by simp)
      obtain ⟨c, cs, chars⟩ := List.exists_cons_of_ne_nil (mt String.toList_eq_nil_iff.1 filled)
      have here : c ≠ '/' := (plain c (by simp [chars])).1
      cases ss with
      | nil => simpa [join, chars] using here
      | cons t ts => simpa [join, chars] using here
  · rcases List.eq_nil_or_concat ss with rfl | ⟨before, last, rfl⟩
    · simp [join]
    · rw [List.concat_eq_append] at all ⊢
      obtain ⟨filled, plain⟩ := all last (by simp)
      have there : last.toList.getLast? ≠ some '/' := by
        intro slash
        exact (plain _ (List.mem_of_getLast? slash)).1 rfl
      by_cases empty : before = []
      · simpa [empty, join] using there
      · rw [join, String.intercalate_append_of_ne_nil empty (by simp), String.toList_append,
          String.intercalate_singleton, List.getLast?_append]
        have some_last : last.toList.getLast?.isSome := by simpa using filled
        rw [Option.or_of_isSome some_last]
        exact there

end Path

/-! ### Names of parameters -/

namespace Segment

def name? : Segment → Option String
  | literal _ => none
  | param name => some name

/-- The names of the parameters among segments of a pattern. -/
def names (segments : List Segment) : List String := segments.filterMap name?

@[simp] theorem names_literal (text : String) (segments : List Segment) :
    names (literal text :: segments) = names segments := rfl

@[simp] theorem names_param (name : String) (segments : List Segment) :
    names (param name :: segments) = name :: names segments := rfl

end Segment

namespace RoutePattern

open Segment (names)

def paramNames (p : RoutePattern) : List String := names p.segments

/-! ### What a match captures -/

section

variable {segments : List Segment} {acc captured : RouteParams} {parts rest : List String}

/-- Only parameters of the segments are captured. -/
theorem captureAll_of_not_mem (matched : captureAll acc segments parts = some (captured, rest))
    {name : String} (other : name ∉ names segments) : captured.get? name = acc.get? name := by
  induction segments generalizing acc parts with
  | nil =>
    obtain ⟨rfl, rfl⟩ := Prod.mk.inj (Option.some.inj matched)
    rfl
  | cons segment segments ih =>
    cases parts with
    | nil => cases matched
    | cons part parts =>
      obtain ⟨_, caught, onward⟩ := Option.bind_eq_some_iff.1 matched
      cases segment with
      | literal text =>
        rw [Segment.capture] at caught
        split at caught
        · obtain rfl := Option.some.inj caught
          exact ih onward other
        · cases caught
      | param own =>
        obtain rfl := Option.some.inj caught
        rw [Segment.names_param, List.mem_cons, not_or] at other
        rw [ih onward other.2, OrderedMap.get?_insert, if_neg (by simpa using Ne.symm other.1)]

/-- The parts of a path that were matched fill the pattern, given what was captured;
    no parameter may be captured twice. -/
theorem exists_fill_of_captureAll (matched : captureAll acc segments parts = some (captured, rest))
    (distinct : (names segments).Nodup) :
    ∃ taken, parts = taken ++ rest ∧ ∀ params : RouteParams,
      (∀ name ∈ names segments, params.get? name = captured.get? name) →
        segments.mapM (Segment.fill params) = some taken := by
  induction segments generalizing acc parts with
  | nil =>
    obtain ⟨rfl, rfl⟩ := Prod.mk.inj (Option.some.inj matched)
    exact ⟨[], rfl, fun _ _ => rfl⟩
  | cons segment segments ih =>
    cases parts with
    | nil => cases matched
    | cons part parts =>
      obtain ⟨_, caught, onward⟩ := Option.bind_eq_some_iff.1 matched
      cases segment with
      | literal text =>
        obtain ⟨taken, rfl, fills⟩ := ih onward distinct
        refine ⟨part :: taken, rfl, fun params agree => ?_⟩
        rw [Segment.capture] at caught
        split at caught
        · next same =>
          obtain rfl : text = part := by simpa using same
          simp [Segment.fill, fills params agree]
        · cases caught
      | param own =>
        obtain rfl := Option.some.inj caught
        rw [Segment.names_param, List.nodup_cons] at distinct
        obtain ⟨taken, rfl, fills⟩ := ih onward distinct.2
        refine ⟨part :: taken, rfl, fun params agree => ?_⟩
        rw [Segment.names_param, List.forall_mem_cons] at agree
        have here : params.get? own = some part := by
          rw [agree.1, captureAll_of_not_mem onward distinct.1, OrderedMap.get?_insert_self]
        simp [Segment.fill, here, fills params agree.2]

/-- What is captured are parts of the path. -/
theorem captured_mem (matched : captureAll acc segments parts = some (captured, rest))
    {name : String} (own : name ∈ names segments) :
    ∃ part ∈ parts, captured.get? name = some part := by
  induction segments generalizing acc parts with
  | nil => cases own
  | cons segment segments ih =>
    cases parts with
    | nil => cases matched
    | cons part parts =>
      obtain ⟨_, caught, onward⟩ := Option.bind_eq_some_iff.1 matched
      have later (own : name ∈ names segments) :
          ∃ part' ∈ part :: parts, captured.get? name = some part' := by
        obtain ⟨part', there, value⟩ := ih onward own
        exact ⟨part', List.mem_cons_of_mem _ there, value⟩
      cases segment with
      | literal text => exact later own
      | param first =>
        by_cases again : name ∈ names segments
        · exact later again
        · -- the last segment with the name is this one
          obtain rfl : name = first := (List.mem_cons.1 own).resolve_right again
          obtain rfl := Option.some.inj caught
          refine ⟨part, List.mem_cons_self, ?_⟩
          rw [captureAll_of_not_mem onward again, OrderedMap.get?_insert_self]

/-- A pattern that is filled matches the parts it is filled with, and captures the
    values they come from. -/
theorem captureAll_of_fill {params : RouteParams}
    (filled : segments.mapM (Segment.fill params) = some parts) (acc : RouteParams)
    (rest : List String) :
    ∃ captured, captureAll acc segments (parts ++ rest) = some (captured, rest) ∧
      ∀ name ∈ names segments, captured.get? name = params.get? name := by
  induction segments generalizing acc parts with
  | nil =>
    obtain rfl : parts = [] := by simpa using filled.symm
    exact ⟨acc, rfl, by simp [names]⟩
  | cons segment segments ih =>
    rw [List.mapM_cons] at filled
    obtain ⟨part, value, further⟩ := Option.bind_eq_some_iff.1 filled
    obtain ⟨others, onward, whole⟩ := Option.bind_eq_some_iff.1 further
    obtain rfl : part :: others = parts := Option.some.inj whole
    cases segment with
    | literal text =>
      obtain rfl := Option.some.inj value
      obtain ⟨captured, matched, values⟩ := ih onward acc
      exact ⟨captured, by simpa [captureAll, Segment.capture] using matched, values⟩
    | param own =>
      obtain ⟨captured, matched, values⟩ := ih onward (acc.insert own part)
      refine ⟨captured, by simpa [captureAll, Segment.capture] using matched, ?_⟩
      rw [Segment.names_param, List.forall_mem_cons]
      refine ⟨?_, values⟩
      by_cases again : own ∈ names segments
      · exact values own again
      · rw [captureAll_of_not_mem matched again, OrderedMap.get?_insert_self]
        exact value.symm

end

/-- A match captures parts of the path one by one; the remainder comes last. -/
theorem exists_of_capture {p : RoutePattern} {path : String} {params : RouteParams}
    (matched : p.capture? path = some params) :
    ∃ captured rest, captureAll ∅ p.segments (Path.segments path) = some (captured, rest) ∧
      params = (if p.wildcard then captured.insert remainderName (Path.join rest) else captured) ∧
      (p.wildcard = false → rest = []) := by
  obtain ⟨⟨captured, rest⟩, all, matched⟩ := Option.bind_eq_some_iff.1 matched
  refine ⟨captured, rest, all, ?_⟩
  dsimp only at matched
  by_cases wild : p.wildcard
  · rw [if_pos wild] at matched
    simp [wild, Option.some.inj matched]
  · rw [if_neg wild] at matched
    split at matched
    · next none_left =>
      simp [wild, Option.some.inj matched, List.isEmpty_iff.1 none_left]
    · cases matched

theorem capture_of_captureAll {p : RoutePattern} {path : String} {captured : RouteParams}
    {rest : List String}
    (all : captureAll ∅ p.segments (Path.segments path) = some (captured, rest))
    (ends : p.wildcard = false → rest = []) :
    p.capture? path = some
      (if p.wildcard then captured.insert remainderName (Path.join rest) else captured) := by
  rw [capture?, all]
  by_cases wild : p.wildcard
  · simp [wild]
  · simp [wild, ends (by simpa using wild)]

/-- The remainder does not get in the way of a parameter. -/
theorem get?_remainder {p : RoutePattern} (captured : RouteParams) (rest : List String)
    {name : String} (other : name ≠ remainderName) :
    OrderedMap.get? (if p.wildcard then captured.insert remainderName (Path.join rest)
      else captured) name = captured.get? name := by
  split
  · rw [OrderedMap.get?_insert, if_neg (by simpa using Ne.symm other)]
  · rfl

/-! ### From a path to what it captures and back -/

/-- The remainder of a matched path takes its place again. -/
theorem remainder_of_captured {p : RoutePattern} (captured : RouteParams) {rest : List String}
    (all : ∀ s ∈ rest, IsSegment s) (ends : p.wildcard = false → rest = []) (taken : List String) :
    Path.ofSegments (taken ++ p.remainder
      (if p.wildcard then captured.insert remainderName (Path.join rest) else captured))
      = Path.ofSegments (taken ++ rest) := by
  by_cases wild : p.wildcard
  · by_cases left : rest = []
    · simp [remainder, wild, left, Path.join]
    · have ne : Path.join rest ≠ "" := mt (Path.join_eq_empty_iff all).1 left
      simp [remainder, wild, ne, Path.trimSlashes_join all, Path.ofSegments,
        Path.join_append_join taken left]
  · simp [remainder, wild, ends (by simpa using wild)]

/-- What a path has captured makes its canonical form, and that is matched alike. -/
theorem reverse_of_capture {p : RoutePattern} (distinct : p.paramNames.Nodup)
    (proper : remainderName ∉ p.paramNames) {path : String} {params : RouteParams}
    (matched : p.capture? path = some params) :
    p.reverse? params = some (Path.ofSegments (Path.segments path)) ∧
      p.capture? (Path.ofSegments (Path.segments path)) = some params := by
  obtain ⟨captured, rest, all, rfl, ends⟩ := exists_of_capture matched
  have segments : ∀ s ∈ Path.segments path, IsSegment s :=
    fun s hs => Path.isSegment_of_mem_segments hs
  have again := Path.segments_ofSegments segments
  constructor
  · obtain ⟨taken, cut, fills⟩ := exists_fill_of_captureAll all distinct
    have filled := fills _ fun name own =>
      get?_remainder (p := p) captured rest (ne_of_mem_of_not_mem own proper)
    rw [cut] at segments
    have remainder := remainder_of_captured (p := p) captured
      (fun s hs => segments s (by simp [hs])) ends taken
    rw [reverse?, filled, cut, ← remainder]
    rfl
  · apply capture_of_captureAll _ ends
    rw [again]
    exact all

-- Names have to be distinct: of a name that is given twice the later value is captured.
example : (parse "/:a/:a").capture? "/x/y" = some ⟨[("a", "y")]⟩ := by decide +kernel

example : (parse "/:a/:a").reverse? ⟨[("a", "y")]⟩ = some "/y/y" := by decide +kernel

def filePattern : RoutePattern := parse "/users/:id/files/*"

def fileParams : RouteParams := ⟨[("id", "7"), ("*", "a/b.txt")]⟩

/-- A path with empty segments and a query, and the path made from what it captures. -/
theorem filePattern_reversed :
    filePattern.paramNames.Nodup ∧ remainderName ∉ filePattern.paramNames ∧
      filePattern.capture? "//users/7/files/a//b.txt/?tab=1#top" = some fileParams ∧
      filePattern.reverse? fileParams = some "/users/7/files/a/b.txt" ∧
      filePattern.capture? "/users/7/files/a/b.txt" = some fileParams := by
  have distinct : filePattern.paramNames.Nodup := by decide +kernel
  have proper : remainderName ∉ filePattern.paramNames := by decide +kernel
  have matched : filePattern.capture? "//users/7/files/a//b.txt/?tab=1#top" = some fileParams := by
    decide +kernel
  have canonical : Path.ofSegments (Path.segments "//users/7/files/a//b.txt/?tab=1#top")
      = "/users/7/files/a/b.txt" := by
    decide +kernel
  have back := reverse_of_capture distinct proper matched
  rw [canonical] at back
  exact ⟨distinct, proper, matched, back⟩

/-! ### From values to a path and back -/

theorem mem_paramNames_iff {segments : List Segment} {name : String} :
    name ∈ names segments ↔ .param name ∈ segments := by
  induction segments with
  | nil => simp [names]
  | cons segment segments ih =>
    cases segment with
    | literal text => simp [ih]
    | param own => simp [ih]

/-- What a pattern asks for literally can stand in a path. -/
theorem isSegment_of_literal {source text : String} (h : .literal text ∈ (parse source).segments) :
    IsSegment text := by
  obtain ⟨part, taken, read⟩ := List.mem_map.1 h
  have segment := Path.isSegment_of_mem_segments ((List.takeWhile_sublist _).subset taken)
  rw [Segment.parse] at read
  split at read
  · cases read
  · exact Segment.literal.inj read ▸ segment

/-- The parts that fill a pattern come from its segments. -/
theorem exists_of_mem_fill {params : RouteParams} {segments : List Segment} {parts : List String}
    (filled : segments.mapM (Segment.fill params) = some parts) :
    ∀ part ∈ parts, ∃ segment ∈ segments, segment.fill params = some part := by
  induction segments generalizing parts with
  | nil =>
    obtain rfl : parts = [] := by simpa using filled.symm
    simp
  | cons segment segments ih =>
    rw [List.mapM_cons] at filled
    obtain ⟨part, value, further⟩ := Option.bind_eq_some_iff.1 filled
    obtain ⟨others, onward, whole⟩ := Option.bind_eq_some_iff.1 further
    obtain rfl : part :: others = parts := Option.some.inj whole
    rw [List.forall_mem_cons]
    refine ⟨⟨segment, List.mem_cons_self, value⟩, fun other there => ?_⟩
    obtain ⟨segment', inside, value'⟩ := ih onward other there
    exact ⟨segment', List.mem_cons_of_mem _ inside, value'⟩

/-- The segments of a path that was made: the parts that fill the pattern, and those
    of the remainder. -/
theorem exists_segments_of_remainder (p : RoutePattern) (params : RouteParams)
    {parts : List String} (all : ∀ s ∈ parts, IsSegment s) :
    ∃ rest, Path.segments (Path.ofSegments (parts ++ p.remainder params)) = parts ++ rest ∧
      (p.wildcard = false → rest = []) := by
  have plain : Path.segments (Path.ofSegments (parts ++ [])) = parts ++ [] := by
    rw [List.append_nil, Path.segments_ofSegments all]
  rw [remainder]
  split
  · next rest wild _ =>
    split
    · exact ⟨[], plain, fun _ => rfl⟩
    · refine ⟨Path.segments (Path.trimSlashes rest), ?_, fun tame => ?_⟩
      · rw [Path.ofSegments, Path.segments_slash, Path.segments_join_concat all]
      · cases wild.symm.trans tame
  · exact ⟨[], plain, fun _ => rfl⟩

/-- A path that was made from values gives exactly those back, if and only if every
    value of a parameter is a segment; the remainder may be anything. -/
theorem capture_of_reverse_iff (source : String)
    (proper : remainderName ∉ (parse source).paramNames) {params : RouteParams} {path : String}
    (made : (parse source).reverse? params = some path) :
    (∃ captured, (parse source).capture? path = some captured ∧
        ∀ name ∈ (parse source).paramNames, captured.get? name = params.get? name) ↔
      ∀ name ∈ (parse source).paramNames, ∀ value, params.get? name = some value →
        IsSegment value := by
  have other {name : String} (own : name ∈ (parse source).paramNames) : name ≠ remainderName :=
    ne_of_mem_of_not_mem own proper
  constructor
  · rintro ⟨_, matched, same⟩ name own value given
    obtain ⟨captured, rest, all, rfl, _⟩ := exists_of_capture matched
    obtain ⟨part, there, caught⟩ := captured_mem all own
    have kept := (get?_remainder captured rest (other own)).symm.trans (same name own)
    rw [caught, given] at kept
    obtain rfl := Option.some.inj kept
    exact Path.isSegment_of_mem_segments there
  · intro values
    obtain ⟨parts, filled, whole⟩ := Option.bind_eq_some_iff.1 made
    have segments : ∀ part ∈ parts, IsSegment part := by
      intro part there
      obtain ⟨segment, inside, value⟩ := exists_of_mem_fill filled part there
      cases segment with
      | literal text => exact Option.some.inj value ▸ isSegment_of_literal inside
      | param name => exact values name (mem_paramNames_iff.2 inside) part value
    obtain ⟨rest, cut, ends⟩ := exists_segments_of_remainder (parse source) params segments
    rw [Option.some.inj whole] at cut
    obtain ⟨captured, all, same⟩ := captureAll_of_fill filled ∅ rest
    rw [← cut] at all
    refine ⟨_, capture_of_captureAll all ends, fun name own => ?_⟩
    rw [get?_remainder captured rest (other own), same name own]

/-- The remainder is cut short at its question mark; the parameter comes back. -/
theorem filePattern_recovers_id :
    remainderName ∉ (parse "/users/:id/files/*").paramNames ∧
      (parse "/users/:id/files/*").reverse? ⟨[("id", "7"), ("*", "/a//b?c/")]⟩
        = some "/users/7/files/a//b?c" ∧
      ∃ captured, (parse "/users/:id/files/*").capture? "/users/7/files/a//b?c" = some captured ∧
        captured.get? "id" = some "7" := by
  have proper : remainderName ∉ (parse "/users/:id/files/*").paramNames := by decide +kernel
  have made : (parse "/users/:id/files/*").reverse? ⟨[("id", "7"), ("*", "/a//b?c/")]⟩
      = some "/users/7/files/a//b?c" := by
    decide +kernel
  have names : (parse "/users/:id/files/*").paramNames = ["id"] := by decide +kernel
  have law := capture_of_reverse_iff "/users/:id/files/*" proper made
  rw [names] at law
  have part : IsSegment "7" := by decide +kernel
  have segments : ∀ name ∈ ["id"], ∀ value,
      OrderedMap.get? ⟨[("id", "7"), ("*", "/a//b?c/")]⟩ name = some value → IsSegment value := by
    intro name own value given
    have seven : OrderedMap.get? ⟨[("id", "7"), ("*", "/a//b?c/")]⟩ "id" = some "7" := by
      decide +kernel
    rw [List.mem_singleton.1 own, seven] at given
    cases given
    exact part
  obtain ⟨captured, matched, same⟩ := law.2 segments
  exact ⟨proper, made, captured, matched, same "id" (by simp)⟩

/-- A value with a slash makes a path that the pattern does not match. -/
theorem slashed_value_not_recovered :
    ¬ ∀ (source path : String) (params : RouteParams), (parse source).paramNames.Nodup →
      remainderName ∉ (parse source).paramNames → (parse source).reverse? params = some path →
      ∃ captured, (parse source).capture? path = some captured ∧
        ∀ name ∈ (parse source).paramNames, captured.get? name = params.get? name := by
  intro claim
  obtain ⟨captured, matched, _⟩ := claim "/users/:id" "/users/a/b" ⟨[("id", "a/b")]⟩
    (by decide +kernel) (by decide +kernel) (by decide +kernel)
  have missed : (parse "/users/:id").capture? "/users/a/b" = none := by decide +kernel
  cases missed.symm.trans matched

end RoutePattern

end PageTree
