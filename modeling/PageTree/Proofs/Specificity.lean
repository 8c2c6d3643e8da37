/-
  PageTree/Proofs/Specificity.lean
  ================================
  **More specific patterns score higher.**

  A pattern is more general than another one if it matches every path that the other
  one matches.  This can be read off the two patterns: the segments of the more general
  one cover those of the other one from the left, a parameter covering any segment and
  a literal itself only, and where they do not cover all of them, or where the other
  pattern has a wildcard, it has a wildcard too.  To see this it is enough to look at
  the path in which a segment that occurs in no pattern takes the place of every
  parameter, and at that path with one more segment.

  A segment that covers another one does not score higher, and as high only if both are
  literals or both parameters.  So a route is never taken in place of a more specific
  one.

    * `RoutePattern.isSome_capture_iff`: which paths match;
    * `RoutePattern.generalizes_iff_covers`: which patterns are more general;
    * `RoutePattern.more_specific_taken`: their scores, and the route that is taken.
-/
import PageTree.Proofs.Reversal
import PageTree.Proofs.Routing

namespace PageTree

open List (Forall₂)

/-! ### Paths that match -/

namespace Segment

/-- The segment of a pattern may stand for this segment of a path. -/
def Fits : Segment → String → Prop
  | literal text, part => text = part
  | param _, _ => True

theorem fits_iff {s : Segment} {acc : RouteParams} {part : String} :
    s.Fits part ↔ ∃ captured, s.capture acc part = some captured := by
  cases s with
  | literal text => simp [Fits, capture]
  | param name => simp [Fits, capture]

end Segment

namespace RoutePattern

open Segment (Fits)

theorem exists_captureAll_iff {segments : List Segment} {acc : RouteParams}
    {parts rest : List String} :
    (∃ captured, captureAll acc segments parts = some (captured, rest)) ↔
      ∃ taken, parts = taken ++ rest ∧ Forall₂ Fits segments taken := by
  induction segments generalizing acc parts with
  | nil =>
    constructor
    · rintro ⟨_, matched⟩
      obtain ⟨-, rfl⟩ := Prod.mk.inj (Option.some.inj matched)
      exact ⟨[], rfl, .nil⟩
    · rintro ⟨_, rfl, ⟨⟩⟩
      exact ⟨acc, rfl⟩
  | cons segment segments ih =>
    constructor
    · rintro ⟨captured, matched⟩
      cases parts with
      | nil => cases matched
      | cons part parts =>
        obtain ⟨next, caught, onward⟩ := Option.bind_eq_some_iff.1 matched
        obtain ⟨taken, rfl, fits⟩ := ih.1 ⟨captured, onward⟩
        exact ⟨part :: taken, rfl, .cons (Segment.fits_iff.2 ⟨next, caught⟩) fits⟩
    · rintro ⟨_, rfl, fits⟩
      cases fits with
      | @cons _ part _ taken here later =>
        obtain ⟨next, caught⟩ : ∃ next, segment.capture acc part = some next :=
          Segment.fits_iff.1 here
        obtain ⟨captured, onward⟩ :
            ∃ captured, captureAll next segments (taken ++ rest) = some (captured, rest) :=
          ih.2 ⟨taken, rfl, later⟩
        refine ⟨captured, ?_⟩
        rw [List.cons_append, captureAll, caught]
        exact onward

/-- A path matches if its segments begin with some for which the pattern may stand; the
    others take a wildcard. -/
theorem isSome_capture_iff {p : RoutePattern} {path : String} :
    (p.capture? path).isSome ↔ ∃ taken rest, Path.segments path = taken ++ rest ∧
      Forall₂ Fits p.segments taken ∧ (p.wildcard = false → rest = []) := by
  constructor
  · intro matched
    obtain ⟨_, matched⟩ := Option.isSome_iff_exists.1 matched
    obtain ⟨captured, rest, all, -, ends⟩ := exists_of_capture matched
    obtain ⟨taken, cut, fits⟩ := exists_captureAll_iff.1 ⟨captured, all⟩
    exact ⟨taken, rest, cut, fits, ends⟩
  · rintro ⟨taken, rest, cut, fits, ends⟩
    obtain ⟨_, all⟩ := exists_captureAll_iff.2 ⟨taken, cut, fits⟩
    exact Option.isSome_iff_exists.2 ⟨_, capture_of_captureAll all ends⟩

/-- Every path that matches `p` also matches `q`. -/
def Generalizes (q p : RoutePattern) : Prop :=
  ∀ path, (p.capture? path).isSome → (q.capture? path).isSome

end RoutePattern

/-! ### Segments that cover others -/

namespace Segment

/-- The first segment may stand for all that the second one may stand for. -/
def Covers : Segment → Segment → Prop
  | literal text, literal other => text = other
  | literal _, param _ => False
  | param _, _ => True

theorem Covers.fits {t s : Segment} (covers : t.Covers s) {part : String} (fits : s.Fits part) :
    t.Fits part := by
  cases t with
  | literal text =>
    cases s with
    | literal other => exact Eq.trans covers fits
    | param name => cases covers
  | param name => trivial

theorem exists_fits_of_covers {ts covered more : List Segment} {taken : List String}
    (covers : Forall₂ Covers ts covered) (fits : Forall₂ Fits (covered ++ more) taken) :
    ∃ front back, taken = front ++ back ∧ Forall₂ Fits ts front ∧ Forall₂ Fits more back := by
  induction covers generalizing taken with
  | nil => exact ⟨[], taken, rfl, .nil, fits⟩
  | cons here _ ih =>
    cases fits with
    | cons first later =>
      obtain ⟨front, back, rfl, fits, beyond⟩ := ih later
      exact ⟨_ :: front, back, rfl, .cons (here.fits first) fits, beyond⟩

/-- The literal of a segment; a parameter has none. -/
def text? : Segment → Option String
  | literal text => some text
  | param _ => none

theorem score_pos (s : Segment) : 0 < s.score := by
  cases s <;> simp [score]

theorem Covers.score_le {t s : Segment} (covers : t.Covers s) :
    t.score ≤ s.score ∧ (t.score = s.score → t.text? = s.text?) := by
  cases t with
  | literal text =>
    cases s with
    | literal other => exact ⟨Nat.le_refl _, fun _ => congrArg some covers⟩
    | param name => cases covers
  | param name =>
    cases s with
    | literal other => simp [score]
    | param other => exact ⟨Nat.le_refl _, fun _ => rfl⟩

theorem sum_score_le {ts ss : List Segment} (covers : Forall₂ Covers ts ss) :
    (ts.map score).sum ≤ (ss.map score).sum ∧
      ((ts.map score).sum = (ss.map score).sum → ts.map text? = ss.map text?) := by
  induction covers with
  | nil => exact ⟨Nat.le_refl _, fun _ => rfl⟩
  | cons here _ ih =>
    obtain ⟨less, same⟩ := here.score_le
    simp only [List.map_cons, List.sum_cons]
    refine ⟨by omega, fun equal => ?_⟩
    rw [same (by omega), ih.2 (by omega)]

/-- The segment with another one in the place of its parameter. -/
def stand (part : String) : Segment → String
  | literal text => text
  | param _ => part

theorem fits_stand (part : String) (s : Segment) : s.Fits (s.stand part) := by
  cases s with
  | literal text => rfl
  | param name => trivial

/-- What fits a segment in which something new stands for the parameter covers it. -/
theorem covers_of_fits_stand {part : String} {t s : Segment} (new : t.text? ≠ some part)
    (fits : t.Fits (s.stand part)) : t.Covers s := by
  cases t with
  | literal text =>
    cases s with
    | literal other => exact fits
    | param name => exact new (congrArg some fits)
  | param name => trivial

theorem forall₂_covers {part : String} {ts ss : List Segment}
    (new : ∀ t ∈ ts, t.text? ≠ some part) (fits : Forall₂ Fits ts (ss.map (stand part))) :
    Forall₂ Covers ts ss := by
  rw [List.forall₂_map_right_iff] at fits
  induction fits with
  | nil => exact .nil
  | cons here _ ih =>
    rw [List.forall_mem_cons] at new
    exact .cons (covers_of_fits_stand new.1 here) (ih new.2)

end Segment

/-- There is always one more segment. -/
theorem exists_isSegment_notMem (texts : List String) : ∃ s, IsSegment s ∧ s ∉ texts := by
  let long := String.ofList (List.replicate ((texts.map String.length).sum + 1) 'a')
  refine ⟨long, ⟨?_, ?_⟩, fun mem => ?_⟩
  · simp [long]
  · intro c hc
    rw [String.toList_ofList] at hc
    rw [List.eq_of_mem_replicate hc]
    decide
  · have bound := List.le_sum_of_mem (List.mem_map_of_mem (f := String.length) mem)
    simp [long] at bound

/-! ### More general patterns -/

namespace RoutePattern

open Segment (Fits stand)

/-- The segments of `q` cover those of `p` from the left.  Only a wildcard takes more:
    the segments of `p` that are left, and what the wildcard of `p` takes. -/
def Covers (q p : RoutePattern) : Prop :=
  ∃ covered more, p.segments = covered ++ more ∧ Forall₂ Segment.Covers q.segments covered ∧
    (q.wildcard = false → more = [] ∧ p.wildcard = false)

theorem Covers.generalizes {q p : RoutePattern} (h : q.Covers p) : q.Generalizes p := by
  obtain ⟨covered, more, segments, covers, ends⟩ := h
  intro path matched
  obtain ⟨taken, rest, cut, fits, closed⟩ := isSome_capture_iff.1 matched
  rw [segments] at fits
  obtain ⟨front, back, rfl, here, beyond⟩ := Segment.exists_fits_of_covers covers fits
  refine isSome_capture_iff.2 ⟨front, back ++ rest, ?_, here, fun tame => ?_⟩
  · rw [cut, List.append_assoc]
  · obtain ⟨rfl, alsoTame⟩ := ends tame
    rw [closed alsoTame, List.forall₂_nil_left_iff.1 beyond]
    rfl

/-- A path of a written pattern: a segment stands for every parameter, and more segments
    are taken by the wildcard. -/
theorem isSome_capture_stand (source : String) {part : String} (segment : IsSegment part)
    (extra : List String) (others : ∀ s ∈ extra, IsSegment s)
    (ends : (parse source).wildcard = false → extra = []) :
    Path.segments (Path.ofSegments ((parse source).segments.map (stand part) ++ extra))
        = (parse source).segments.map (stand part) ++ extra ∧
      ((parse source).capture?
        (Path.ofSegments ((parse source).segments.map (stand part) ++ extra))).isSome := by
  have cut : Path.segments (Path.ofSegments ((parse source).segments.map (stand part) ++ extra))
      = (parse source).segments.map (stand part) ++ extra := by
    apply Path.segments_ofSegments
    intro s hs
    rcases List.mem_append.1 hs with own | more
    · obtain ⟨segment', inside, rfl⟩ := List.mem_map.1 own
      cases segment' with
      | literal text => exact isSegment_of_literal inside
      | param name => exact segment
    · exact others s more
  have fits : Forall₂ Fits (parse source).segments ((parse source).segments.map (stand part)) := by
    rw [List.forall₂_map_right_iff, List.forall₂_same]
    exact fun s _ => Segment.fits_stand part s
  exact ⟨cut, isSome_capture_iff.2 ⟨_, extra, cut, fits, ends⟩⟩

theorem covers_of_generalizes {q : RoutePattern} {source : String}
    (general : q.Generalizes (parse source)) : q.Covers (parse source) := by
  obtain ⟨part, segment, unused⟩ := exists_isSegment_notMem (q.segments.filterMap Segment.text?)
  have new : ∀ t ∈ q.segments, t.text? ≠ some part :=
    fun t ht same => unused (List.mem_filterMap.2 ⟨t, ht, same⟩)
  -- the path with the new segment, and nothing for the wildcard
  obtain ⟨cut, matched⟩ := isSome_capture_stand source segment [] nofun fun _ => rfl
  obtain ⟨taken, rest, same, fits, closed⟩ := isSome_capture_iff.1 (general _ matched)
  rw [cut, List.append_nil] at same
  obtain ⟨covered, more, segments, rfl, rfl⟩ := List.map_eq_append_iff.1 same
  refine ⟨covered, more, segments, Segment.forall₂_covers new fits, fun tame => ?_⟩
  have none_left : more = [] := List.map_eq_nil_iff.1 (closed tame)
  refine ⟨none_left, Bool.eq_false_iff.2 fun wild => ?_⟩
  -- the path with one more segment, which is too long for `q`
  obtain ⟨cut', matched'⟩ := isSome_capture_stand source segment [part]
    (by simpa using segment) (by simp [wild])
  obtain ⟨taken', rest', same', fits', closed'⟩ := isSome_capture_iff.1 (general _ matched')
  have short := fits.length_eq
  have long := fits'.length_eq
  have lengths := congrArg List.length (cut'.symm.trans same')
  simp only [closed' tame, segments, none_left, List.append_nil, List.length_append,
    List.length_map, List.length_singleton] at short long lengths
  omega

/-- Which patterns are more general than a written one. -/
theorem generalizes_iff_covers {q : RoutePattern} {source : String} :
    q.Generalizes (parse source) ↔ q.Covers (parse source) :=
  ⟨covers_of_generalizes, Covers.generalizes⟩

/-! ### Scores -/

/-- The segments of a pattern up to the names of its parameters. -/
def shape (p : RoutePattern) : List (Option String) := p.segments.map Segment.text?

theorem score_eq_sum (p : RoutePattern) : p.score = (p.segments.map Segment.score).sum := rfl

theorem Covers.score_le {q p : RoutePattern} (h : q.Covers p) :
    q.score ≤ p.score ∧ (q.score = p.score → q.shape = p.shape) := by
  obtain ⟨covered, more, segments, covers, -⟩ := h
  obtain ⟨less, same⟩ := Segment.sum_score_le covers
  have total : p.score = (covered.map Segment.score).sum + (more.map Segment.score).sum := by
    rw [score_eq_sum, segments, List.map_append, List.sum_append]
  rw [← score_eq_sum] at less same
  refine ⟨by omega, fun equal => ?_⟩
  cases more with
  | nil =>
    rw [shape, shape, segments, List.append_nil]
    exact same (by simpa [equal] using total)
  | cons s ss =>
    have positive := s.score_pos
    rw [List.map_cons, List.sum_cons] at total
    omega

/-- **More specific patterns score higher.**  If every path that matches a pattern also
    matches another one, then the other one does not score higher, and as high only if
    the segments of both are the same up to the names of parameters.  So of routes with
    these patterns, in any table and whatever has been asked before, a router never takes
    the more general one for a path that matches the more specific one. -/
theorem more_specific_taken {source other : String}
    (general : (parse other).Generalizes (parse source)) :
    (parse other).score ≤ (parse source).score ∧
    ((parse other).score = (parse source).score → (parse other).shape = (parse source).shape) ∧
    ∀ {ρ : Type} (settings : RouterSettings) (routes : List (Route ρ)) (asked : List String)
      (path : String), (∃ route ∈ routes, route.pattern = parse source) →
      ((parse source).capture? path).isSome → (parse other).shape ≠ (parse source).shape →
      ∃ m taken, (((Router.new settings routes).after asked).resolve path).1 = some m ∧
        routes[m.index]? = some taken ∧ taken.pattern ≠ parse other ∧
        (parse other).score < m.score := by
  obtain ⟨less, same⟩ := (generalizes_iff_covers.1 general).score_le
  refine ⟨less, same, ?_⟩
  intro ρ settings routes asked path ⟨route, mem, pattern⟩ matched differ
  rw [Router.resolve_after_new]
  rw [← pattern] at matched
  obtain ⟨m, best, reached⟩ := Route.exists_best_of_mem mem matched
  obtain ⟨taken, there, hit⟩ := Route.exists_of_best best
  have higher : (parse other).score < m.score := by
    have strict := lt_of_le_of_ne less fun equal => differ (same equal)
    rw [pattern] at reached
    exact strict.trans_le reached
  refine ⟨m, taken, best, there, fun is => ?_, higher⟩
  rw [Route.score_of_match? hit, is] at higher
  exact Nat.lt_irrefl _ higher

/-- A pattern with a parameter in place of a literal and a wildcard; the route that is
    registered later is taken. -/
theorem userPattern_taken :
    (parse "/:section/*").Generalizes (parse "/users/:id") ∧
      (parse "/:section/*").score < (parse "/users/:id").score ∧
      ∃ m, (((Router.new { cache := true }
          [⟨parse "/:section/*", ()⟩, ⟨parse "/users/:id", ()⟩]).after ["/users", "/users/7"]
        ).resolve "/users/7").1 = some m ∧ (parse "/:section/*").score < m.score := by
  have covers : (parse "/:section/*").Covers (parse "/users/:id") := by
    refine ⟨[.literal "users"], [.param "id"], by decide +kernel, ?_, ?_⟩
    · have segments : (parse "/:section/*").segments = [.param "section"] := by decide +kernel
      rw [segments]
      exact .cons trivial .nil
    · have wild : (parse "/:section/*").wildcard = true := by decide +kernel
      simp [wild]
  have differ : (parse "/:section/*").shape ≠ (parse "/users/:id").shape := by decide +kernel
  obtain ⟨less, same, taken⟩ := more_specific_taken covers.generalizes
  obtain ⟨m, _, answer, -, -, higher⟩ := taken { cache := true }
    [⟨parse "/:section/*", ()⟩, ⟨parse "/users/:id", ()⟩] ["/users", "/users/7"] "/users/7"
    ⟨⟨parse "/users/:id", ()⟩, by simp, rfl⟩ (by decide +kernel) differ
  refine ⟨covers.generalizes, ?_, m, answer, higher⟩
  exact lt_of_le_of_ne less fun equal => differ (same equal)

end RoutePattern

end PageTree
