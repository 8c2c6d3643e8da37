/-
  PageTree/Proofs/Routing.lean
  ============================
  **The route that is taken.**

  Of the matches of a path the most specific one is the best, and among equally
  specific ones that of the route registered first.  The search keeps the best match
  so far, which is preferred to all matches before it.

  A caching router looks up what it answered before.  As long as all it remembers
  are the best matches among its routes, it answers like one that remembers
  nothing, and goes on to remember only best matches.

    * `Route.exists_of_best`, `Route.best_eq_none_iff`: the best match is that of a
      route, and there is one as soon as a route matches;
    * `Route.best_eq_some_iff`: the best match is preferred to all others;
    * `Router.Honest.resolve`: the answer of a router, and what it remembers then;
    * `Router.route_taken_iff`: the answer for a path, whatever was asked before;
    * `RouterContext.along`: the context after a list of trips.
-/
import Mathlib
import PageTree.Route.Router

namespace PageTree

variable {ρ : Type}

/-! ### The best match -/

namespace Route

theorem index_of_match? {route : Route ρ} {index : Nat} {path : String} {m : RouteMatch}
    (matched : route.match? index path = some m) : m.index = index := by
  obtain ⟨params, -, rfl⟩ := Option.map_eq_some_iff.1 matched
  rfl

theorem score_of_match? {route : Route ρ} {index : Nat} {path : String} {m : RouteMatch}
    (matched : route.match? index path = some m) : m.score = route.pattern.score := by
  obtain ⟨params, -, rfl⟩ := Option.map_eq_some_iff.1 matched
  rfl

theorem exists_of_bestFrom {path : String} {index : Nat} {best : Option RouteMatch}
    {routes : List (Route ρ)} {m : RouteMatch} (found : bestFrom path index best routes = some m) :
    best = some m ∨ ∃ j route, routes[j]? = some route ∧ m.index = index + j ∧
      route.match? m.index path = some m := by
  induction routes generalizing index best with
  | nil => exact .inl found
  | cons r rs ih =>
    -- the routes after the first one, which stand one further on
    have later {best' : Option RouteMatch} (found : bestFrom path (index + 1) best' rs = some m) :
        best' = some m ∨ ∃ j route, (r :: rs)[j]? = some route ∧ m.index = index + j ∧
          route.match? m.index path = some m := by
      rcases ih found with before | ⟨j, route, there, position, matched⟩
      · exact .inl before
      · exact .inr ⟨j + 1, route, there, by omega, matched⟩
    rw [bestFrom] at found
    cases matched : r.match? index path with
    | none =>
      rw [matched] at found
      exact later found
    | some first =>
      rw [matched] at found
      rcases later found with before | further
      swap
      · exact .inr further
      have here : first = m → ∃ j route, (r :: rs)[j]? = some route ∧ m.index = index + j ∧
          route.match? m.index path = some m := by
        rintro rfl
        have position := index_of_match? matched
        exact ⟨0, r, rfl, position, position ▸ matched⟩
      rw [RouteMatch.better.eq_def] at before
      cases best with
      | none => exact .inr (here (Option.some.inj before))
      | some b =>
        dsimp only at before
        split at before
        · exact .inr (here (Option.some.inj before))
        · exact .inl before

/-- The best match is that of the route at its position. -/
theorem exists_of_best {path : String} {routes : List (Route ρ)} {m : RouteMatch}
    (found : best routes path = some m) :
    ∃ route, routes[m.index]? = some route ∧ route.match? m.index path = some m := by
  rcases exists_of_bestFrom found with before | ⟨j, route, there, position, matched⟩
  · cases before
  · rw [Nat.zero_add] at position
    exact ⟨route, position ▸ there, matched⟩

theorem bestFrom_eq_none_iff {path : String} {index : Nat} {best : Option RouteMatch}
    {routes : List (Route ρ)} : bestFrom path index best routes = none ↔
      best = none ∧ ∀ route ∈ routes, route.pattern.capture? path = none := by
  induction routes generalizing index best with
  | nil => simp [bestFrom]
  | cons r rs ih =>
    rw [bestFrom, List.forall_mem_cons]
    cases captured : r.pattern.capture? path with
    | none => simp [match?, captured, ih]
    | some params =>
      have better : ∀ m, RouteMatch.better best m ≠ none := by
        intro m
        rw [RouteMatch.better.eq_def]
        cases best with
        | none => exact Option.some_ne_none m
        | some b =>
          dsimp only
          split <;> exact Option.some_ne_none _
      simp [match?, captured, ih, better]

/-- There is no best match exactly if no route matches. -/
theorem best_eq_none_iff {path : String} {routes : List (Route ρ)} :
    best routes path = none ↔ ∀ route ∈ routes, route.pattern.capture? path = none :=
  bestFrom_eq_none_iff.trans (and_iff_right rfl)

end Route

/-! ### Preference among matches -/

namespace RouteMatch

/-- The match is preferred to another one of the same path, or is the same: it is
    more specific, or as specific and not later. -/
def Precedes (m other : RouteMatch) : Prop :=
  other.score < m.score ∨ other.score = m.score ∧ m.index ≤ other.index

theorem Precedes.refl (m : RouteMatch) : m.Precedes m := .inr ⟨rfl, Nat.le_refl _⟩

theorem Precedes.trans {m n o : RouteMatch} (first : m.Precedes n) (second : n.Precedes o) :
    m.Precedes o := by
  unfold Precedes at *
  omega

/-- Of two matches of different routes only one is preferred to the other. -/
theorem Precedes.index_eq {m n : RouteMatch} (first : m.Precedes n) (second : n.Precedes m) :
    m.index = n.index := by
  unfold Precedes at *
  omega

/-- The better of two matches is preferred to both, if the one before is the earlier. -/
theorem exists_better {best : Option RouteMatch} {m : RouteMatch}
    (earlier : ∀ b, best = some b → b.index < m.index) :
    ∃ kept, better best m = some kept ∧ kept.index ≤ m.index ∧ kept.Precedes m ∧
      ∀ b, best = some b → kept.Precedes b := by
  cases best with
  | none => exact ⟨m, rfl, Nat.le_refl _, .refl m, nofun⟩
  | some b =>
    have before := earlier b rfl
    by_cases less : b.score < m.score
    · refine ⟨m, if_pos less, Nat.le_refl _, .refl m, ?_⟩
      rintro _ ⟨rfl⟩
      exact .inl less
    · refine ⟨b, if_neg less, before.le, ?_, ?_⟩
      · unfold Precedes
        omega
      · rintro _ ⟨rfl⟩
        exact .refl b

end RouteMatch

namespace Route

/-- By induction on the routes: what the search keeps is preferred to all matches so
    far, and the positions of these are smaller than those of the routes to come. -/
theorem precedes_of_bestFrom {path : String} {index : Nat} {best : Option RouteMatch}
    {routes : List (Route ρ)} {m : RouteMatch} (found : bestFrom path index best routes = some m)
    (earlier : ∀ b, best = some b → b.index < index) :
    (∀ b, best = some b → m.Precedes b) ∧
      ∀ (j : Nat) (route : Route ρ) (other : RouteMatch), routes[j]? = some route →
        route.match? (index + j) path = some other → m.Precedes other := by
  induction routes generalizing index best with
  | nil =>
    obtain rfl : best = some m := found
    refine ⟨?_, nofun⟩
    rintro _ ⟨rfl⟩
    exact .refl m
  | cons r rs ih =>
    -- the route at `j + 1` is the one at `j` among those after the first
    have shifted (j : Nat) : index + (j + 1) = index + 1 + j := by omega
    rw [bestFrom] at found
    cases matched : r.match? index path with
    | none =>
      rw [matched] at found
      obtain ⟨before, others⟩ := ih found fun b kept => (earlier b kept).trans (Nat.lt_succ_self _)
      refine ⟨before, fun j route other there hit => ?_⟩
      cases j with
      | zero =>
        obtain rfl : r = route := Option.some.inj there
        cases matched.symm.trans hit
      | succ j => exact others j route other there (shifted j ▸ hit)
    | some first =>
      rw [matched] at found
      have here : first.index = index := index_of_match? matched
      obtain ⟨kept, same, upTo, overFirst, overBest⟩ :=
        RouteMatch.exists_better (m := first) fun b is => here ▸ earlier b is
      obtain ⟨before, others⟩ := ih found fun b is => by
        obtain rfl : kept = b := Option.some.inj (same.symm.trans is)
        omega
      refine ⟨fun b is => (before kept same).trans (overBest b is), ?_⟩
      intro j route other there hit
      cases j with
      | zero =>
        obtain rfl : r = route := Option.some.inj there
        obtain rfl : first = other := Option.some.inj (matched.symm.trans hit)
        exact (before kept same).trans overFirst
      | succ j => exact others j route other there (shifted j ▸ hit)

/-- The best match is the match of a route that is preferred to those of all others. -/
theorem best_eq_some_iff {path : String} {routes : List (Route ρ)} {m : RouteMatch} :
    best routes path = some m ↔
      (∃ route, routes[m.index]? = some route ∧ route.match? m.index path = some m) ∧
        ∀ (j : Nat) (route : Route ρ) (other : RouteMatch), routes[j]? = some route →
          route.match? j path = some other → m.Precedes other := by
  have optimal {m : RouteMatch} (found : best routes path = some m) (j : Nat) (route : Route ρ)
      (other : RouteMatch) (there : routes[j]? = some route)
      (hit : route.match? j path = some other) : m.Precedes other :=
    (precedes_of_bestFrom found nofun).2 j route other there (by rwa [Nat.zero_add])
  constructor
  · intro found
    exact ⟨exists_of_best found, optimal found⟩
  · rintro ⟨⟨route, there, hit⟩, preferred⟩
    cases found : best routes path with
    | none =>
      obtain ⟨params, matched, -⟩ := Option.map_eq_some_iff.1 hit
      cases (best_eq_none_iff.1 found route (List.mem_of_getElem? there)).symm.trans matched
    | some n =>
      obtain ⟨route', there', hit'⟩ := exists_of_best found
      have position : n.index = m.index :=
        (optimal found _ _ _ there hit).index_eq (preferred _ _ _ there' hit')
      rw [position] at there' hit'
      obtain rfl : route' = route := Option.some.inj (there'.symm.trans there)
      exact hit'.symm.trans hit

/-- A route that matches is only passed over for one that scores at least as high. -/
theorem exists_best_of_mem {path : String} {routes : List (Route ρ)} {route : Route ρ}
    (mem : route ∈ routes) (matches' : (route.pattern.capture? path).isSome) :
    ∃ m, best routes path = some m ∧ route.pattern.score ≤ m.score := by
  obtain ⟨params, captured⟩ := Option.isSome_iff_exists.1 matches'
  obtain ⟨j, there⟩ := List.getElem?_of_mem mem
  cases found : best routes path with
  | none => cases captured.symm.trans (best_eq_none_iff.1 found route mem)
  | some m =>
    have hit : route.match? j path
        = some ⟨j, route.pattern.source, params, route.pattern.score⟩ := by
      rw [match?, captured]
      rfl
    refine ⟨m, rfl, ?_⟩
    rcases (best_eq_some_iff.1 found).2 j route _ there hit with less | ⟨same, -⟩
    · exact less.le
    · exact same.le

end Route

/-! ### What a router remembers -/

namespace Router

/-- A router of which all known answers are the best matches. -/
def Honest (r : Router ρ) : Prop :=
  ∀ path answer, r.known.get? path = some answer → answer = Route.best r.routes path

/-- The router without what it remembers. -/
def forgetful (r : Router ρ) : Router ρ := { r with known := ∅ }

theorem honest_new (settings : RouterSettings) (routes : List (Route ρ)) :
    (Router.new settings routes).Honest := nofun

theorem Honest.moveTo {r : Router ρ} (honest : r.Honest) (path : String) (params : RouteParams) :
    (r.moveTo path params).Honest := honest

/-- An honest router takes the best match, and stays honest and the same but for what
    it remembers. -/
theorem Honest.resolve {r : Router ρ} (honest : r.Honest) (path : String) :
    (r.resolve path).1 = Route.best r.routes path ∧ (r.resolve path).2.Honest ∧
      (r.resolve path).2.forgetful = r.forgetful := by
  unfold Router.resolve
  split
  · split
    · next answer known => exact ⟨honest path answer known, honest, rfl⟩
    · refine ⟨rfl, fun other answer known => ?_, rfl⟩
      change (r.known.insert path (Route.best r.routes path)).get? other = some answer at known
      rw [OrderedMap.get?_insert] at known
      split at known
      · next same =>
        obtain rfl : path = other := by simpa using same
        exact (Option.some.inj known).symm
      · exact honest other answer known
  · exact ⟨rfl, honest, rfl⟩

/-- The router that is left when it has been asked for the routes of some paths. -/
def after (r : Router ρ) (asked : List String) : Router ρ :=
  asked.foldl (fun r path => (r.resolve path).2) r

theorem Honest.after {r : Router ρ} (honest : r.Honest) (asked : List String) :
    (r.after asked).Honest ∧ (r.after asked).forgetful = r.forgetful := by
  induction asked generalizing r with
  | nil => exact ⟨honest, rfl⟩
  | cons path asked ih =>
    obtain ⟨-, kept, same⟩ := honest.resolve path
    obtain ⟨later, unchanged⟩ := ih kept
    exact ⟨later, unchanged.trans same⟩

/-- A new router takes the best match, whatever it has been asked before. -/
theorem resolve_after_new (settings : RouterSettings) (routes : List (Route ρ))
    (asked : List String) (path : String) :
    (((new settings routes).after asked).resolve path).1 = Route.best routes path := by
  obtain ⟨honest, same⟩ := (honest_new settings routes).after asked
  have kept : ((new settings routes).after asked).routes = routes :=
    congrArg (·.forgetful.routes) same
  rw [(honest.resolve path).1, kept]

/-- **The route that is taken for a path**, by a router that is caching or not and has
    been asked for other paths before: none exactly if no route matches; and else the
    first of the most specific routes among those that match, with what its pattern
    captures, its score and the text of its pattern. -/
theorem route_taken_iff (settings : RouterSettings) (routes : List (Route ρ))
    (asked : List String) (path : String) :
    ((((new settings routes).after asked).resolve path).1 = none ↔
      ∀ route ∈ routes, route.pattern.capture? path = none) ∧
    ∀ m, (((new settings routes).after asked).resolve path).1 = some m ↔
      ∃ route params, routes[m.index]? = some route ∧ route.pattern.capture? path = some params ∧
        m = ⟨m.index, route.pattern.source, params, route.pattern.score⟩ ∧
        ∀ (j : Nat) (other : Route ρ), routes[j]? = some other →
          (other.pattern.capture? path).isSome →
            other.pattern.score < route.pattern.score ∨
              other.pattern.score = route.pattern.score ∧ m.index ≤ j := by
  rw [resolve_after_new]
  refine ⟨Route.best_eq_none_iff, fun m => ?_⟩
  rw [Route.best_eq_some_iff]
  constructor
  · rintro ⟨⟨route, there, hit⟩, preferred⟩
    obtain ⟨params, matched, is⟩ := Option.map_eq_some_iff.1 hit
    refine ⟨route, params, there, matched, is.symm, fun j other place matches' => ?_⟩
    obtain ⟨captured, capture⟩ := Option.isSome_iff_exists.1 matches'
    have order := preferred j other _ place (by rw [Route.match?, capture]; rfl)
    rwa [← is] at order
  · rintro ⟨route, params, there, matched, is, preferred⟩
    refine ⟨⟨route, there, ?_⟩, fun j other n place hit => ?_⟩
    · rw [Route.match?, matched]
      exact congrArg some is.symm
    · obtain ⟨captured, capture, rfl⟩ := Option.map_eq_some_iff.1 hit
      have order := preferred j other place (by rw [capture]; rfl)
      rw [is]
      exact order

-- Routes that are equally specific for different reasons.
example : (((new { cache := true } [⟨.parse "/:page", ()⟩, ⟨.parse "/a/*", ()⟩, ⟨.parse "/a", ()⟩]
    ).resolve "/a").1.map (·.index)) = some 1 := by
  decide +kernel

end Router

/-! ### Trips -/

/-- The context after some trips, each with its path and its parameters: the last
    path, the one before it, and the parameters of the last. -/
def RouterContext.along (c : RouterContext) (trips : List (String × RouteParams)) :
    RouterContext :=
  match trips.reverse with
  | [] => c
  | [(path, params)] => { c with current := some path, previous := c.current, params }
  | (path, params) :: (before, _) :: _ =>
    { c with current := some path, previous := some before, params }

theorem RouterContext.along_concat (c : RouterContext) (trips : List (String × RouteParams))
    (path : String) (params : RouteParams) :
    c.along (trips ++ [(path, params)]) = (c.along trips).moveTo path params := by
  unfold along moveTo
  rw [List.reverse_append]
  rcases trips.reverse with _ | ⟨⟨last, _⟩, _ | ⟨_, _⟩⟩ <;> rfl

end PageTree
