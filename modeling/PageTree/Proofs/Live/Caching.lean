/-
  PageTree/Proofs/Live/Caching.lean
  =================================
  **The answers of a router that remembers.**

  A router is asked for the routes of many paths, by itself or by navigations, and
  may be caching.  All it remembers are best matches, so that no answer depends on
  what was asked before: each is that of a router with the same routes that
  remembers nothing, and it points at one of the routes.

    * `Router.Honest.answers`: the answers to a list of paths;
    * `found_of_navigate`: a navigation reports what its router answered;
    * `caching_transparent`: both along every trail.
-/
import PageTree.Proofs.Live.Itineraries

namespace PageTree

/-! ### Asking a router again and again -/

namespace Router

variable {ρ : Type} {r : Router ρ} {path : String}

/-- A router with the same routes that does not remember anything. -/
def uncached (r : Router ρ) : Router ρ := .new { r.settings with cache := false } r.routes

/-- The routes taken for some paths, each asked of the router that the one before left. -/
def answers (r : Router ρ) : List String → List (Option RouteMatch)
  | [] => []
  | path :: paths => (r.resolve path).1 :: (r.resolve path).2.answers paths

theorem resolve_uncached (r : Router ρ) (path : String) :
    (r.uncached.resolve path).1 = Route.best r.routes path := rfl

theorem uncached_of_forgetful {r' : Router ρ} (same : r'.forgetful = r.forgetful) :
    r'.uncached = r.uncached := by
  have settings : r'.settings = r.settings := congrArg (·.forgetful.settings) same
  have routes : r'.routes = r.routes := congrArg (·.forgetful.routes) same
  rw [uncached, settings, routes, uncached]

/-- By induction on the paths: asking leaves an honest router with the same routes. -/
theorem Honest.answers (honest : r.Honest) (paths : List String) :
    r.answers paths = paths.map fun path => (r.uncached.resolve path).1 := by
  induction paths generalizing r with
  | nil => rfl
  | cons path paths ih =>
    obtain ⟨answer, kept, same⟩ := honest.resolve path
    rw [Router.answers, List.map_cons, answer, resolve_uncached, ih kept,
      uncached_of_forgetful same]

theorem index_lt_of_uncached {m : RouteMatch} (found : (r.uncached.resolve path).1 = some m) :
    m.index < r.routes.length := by
  rw [resolve_uncached] at found
  obtain ⟨route, there, _⟩ := Route.exists_of_best found
  exact (List.getElem?_eq_some_iff.1 there).1

/-- No answer of an honest router points behind its routes. -/
theorem Honest.index_lt (honest : r.Honest) {paths : List String} {m : RouteMatch}
    (given : some m ∈ r.answers paths) : m.index < r.routes.length := by
  rw [honest.answers] at given
  obtain ⟨path, _, found⟩ := List.mem_map.1 given
  exact index_lt_of_uncached found

end Router

namespace Live

variable {P : Callbacks} {μ : Type}

/-! ### Asking for a navigation -/

/-- The route that a navigation reports, or that it found none; nothing if the
    container was missing. -/
def Navigation.found? : Navigation → Option (Option RouteMatch)
  | .rendered m => some (some m)
  | .unchanged m => some (some m)
  | .notFound => some none
  | .missingContainer => none

/-- A container is filled with the markup of the route it is filled for. -/
theorem found_fillContainer {calls : Calls P μ} {settings : RouterSettings} {m : RouteMatch}
    {html : String} {w w' : World P μ} {navigation : Navigation}
    (h : calls.fillContainer settings m html w = some (navigation, w')) :
    navigation.found? = some (some m) := by
  unfold Calls.fillContainer at h
  rw [Act.look_bind] at h
  split at h
  · obtain ⟨rfl, rfl⟩ := Prod.mk.inj (Option.some.inj h)
    rfl
  · split at h
    · obtain ⟨_, w₁, _, h⟩ := Act.bind_eq_some.1 h
      dsimp only at h
      rw [Act.change_bind, Act.change_bind] at h
      obtain ⟨rfl, rfl⟩ := Prod.mk.inj (Option.some.inj h)
      rfl
    · dsimp only at h
      rw [Act.change_bind, Act.change_bind] at h
      obtain ⟨rfl, rfl⟩ := Prod.mk.inj (Option.some.inj h)
      rfl

/-- A navigation reports the route that was found at its start. -/
theorem found_of_navigate {calls : Calls P μ} {id path : String} {w w' : World P μ}
    {navigation : Navigation} {destination : Client.Destination P}
    (asked : (w.client.findRoute id path).1 = some destination)
    (h : calls.navigate id path w = some (.ok navigation, w')) {found : Option RouteMatch}
    (reports : navigation.found? = some found) : found = destination.target.map (·.1) := by
  unfold Calls.navigate at h
  rw [Act.through_bind, asked] at h
  dsimp only at h
  rw [Act.look_bind] at h
  split at h
  · obtain ⟨answer, rfl⟩ := Prod.mk.inj (Option.some.inj h)
    cases Except.ok.inj answer
    cases reports
  · cases target : destination.target with
    | none =>
      rw [target] at h
      obtain ⟨answer, rfl⟩ := Prod.mk.inj (Option.some.inj h)
      cases Except.ok.inj answer
      cases reports
      rfl
    | some taken =>
      obtain ⟨m, view⟩ := taken
      rw [target] at h
      dsimp only at h
      rw [Act.change_bind] at h
      obtain ⟨html, w₀, _, h⟩ := Act.bind_eq_some.1 h
      rw [Act.change_bind] at h
      obtain ⟨navigation', w₂, filled, h⟩ := Act.bind_eq_some.1 h
      obtain ⟨answer, rfl⟩ := Prod.mk.inj (Option.some.inj h)
      obtain rfl := Except.ok.inj answer
      exact Option.some.inj (reports.symm.trans (found_fillContainer filled))

/-- An honest router finds what one that remembers nothing finds, and it finds the
    route itself: the position of a match is one of the routes. -/
theorem findRoute_eq_uncached {c : Client P} {id : String} {r : Router P.View} (path : String)
    (router : c.routers.get? id = some r) (honest : r.Honest) :
    ∃ target, (c.findRoute id path).1 = some ⟨r.settings, target⟩ ∧
      target.map (·.1) = (r.uncached.resolve path).1 ∧
      ∀ m view, target = some (m, view) → ∃ inside : m.index < r.routes.length,
        view = r.routes[m.index].view := by
  refine ⟨_, (findRoute_of_honest path router honest).1, ?_, ?_⟩
  · rw [Router.resolve_uncached]
    cases best : Route.best r.routes path with
    | none => rfl
    | some m =>
      obtain ⟨route, there, _⟩ := Route.exists_of_best best
      rw [Option.bind_some, there]
      rfl
  · intro m view found
    obtain ⟨m', _, there⟩ := Option.bind_eq_some_iff.1 found
    obtain ⟨route, at_index, same⟩ := Option.map_eq_some_iff.1 there
    obtain ⟨rfl, rfl⟩ := Prod.mk.inj same
    obtain ⟨inside, rfl⟩ := List.getElem?_eq_some_iff.1 at_index
    exact ⟨inside, rfl⟩

/-- What a router answers does not depend on whether it is caching.  Asked for the
    routes of any paths, one after another, a new router answers like one that
    remembers nothing, and no answer points behind its routes.  The same holds of
    every router of a client, whatever the client has done: asked by itself, and
    asked by a navigation, which takes the view of the route it found and reports
    no other. -/
theorem caching_transparent {document : Document} {w : World P μ}
    (reached : Trail (Client.new document) w.client) :
    (∀ (settings : RouterSettings) (routes : List (Route P.View)) (paths : List String),
      (Router.new settings routes).answers paths
          = paths.map (fun path =>
              ((Router.new { settings with cache := false } routes).resolve path).1) ∧
        ∀ m, some m ∈ (Router.new settings routes).answers paths → m.index < routes.length) ∧
    ∀ (id : String) (r : Router P.View), w.client.routers.get? id = some r →
      (∀ paths, r.answers paths = paths.map (fun path => (r.uncached.resolve path).1) ∧
        ∀ m, some m ∈ r.answers paths → m.index < r.routes.length) ∧
      ∀ path, ∃ target, (w.client.findRoute id path).1 = some ⟨r.settings, target⟩ ∧
        target.map (·.1) = (r.uncached.resolve path).1 ∧
        (∀ m view, target = some (m, view) → ∃ inside : m.index < r.routes.length,
          view = r.routes[m.index].view) ∧
        ∀ (calls : Calls P μ) (navigation : Navigation) (w' : World P μ),
          calls.navigate id path w = some (.ok navigation, w') →
          ∀ found, navigation.found? = some found → found = (r.uncached.resolve path).1 := by
  constructor
  · intro settings routes paths
    have honest := Router.honest_new settings routes
    exact ⟨honest.answers paths, fun m given => honest.index_lt given⟩
  · intro id r router
    have honest := reached.honestAll.honest id r router
    constructor
    · intro paths
      exact ⟨honest.answers paths, fun m given => honest.index_lt given⟩
    · intro path
      obtain ⟨target, asked, same, inside⟩ := findRoute_eq_uncached path router honest
      refine ⟨target, asked, same, inside, ?_⟩
      intro calls navigation w' navigated found reports
      exact (found_of_navigate asked navigated reports).trans same

/-- The outer router has been navigated to a page, and to a path that has none. -/
def outerAsked : World mirrored Unit := (goTo (goTo outerMade "A" "/x?q").2 "A" "/y").2

/-- The router remembers the miss as well, and answers for both paths from memory; for
    a path that is spelt differently it looks at its routes. -/
theorem outerAsked_answers :
    Trail (Client.new (Document.ofElements [("a", "")])) outerAsked.client ∧
      ∃ r, outerAsked.client.routers.get? "A" = some r ∧ r.settings.cache = true ∧
        r.known.keys = ["/x?q", "/y"] ∧
        (r.answers ["/y", "/x?q", "//x"]).map (·.map (·.index)) = [none, some 1, some 1] := by
  have made : Trail (Client.new (Document.ofElements [("a", "")])) outerMade.client :=
    .of_run (run_createRouter mirroredProgram 1 (w := unrouted) rfl outerSettings outerRoutes)
  have shown : mirroredProgram.run 1 (.request (.navigate "A" "/x?q")) outerMade
      = some (goTo outerMade "A" "/x?q") := run_goTo (by decide +kernel)
  have missed : mirroredProgram.run 1 (.request (.navigate "A" "/y")) (goTo outerMade "A" "/x?q").2
      = some (goTo (goTo outerMade "A" "/x?q").2 "A" "/y") := run_goTo (by decide +kernel)
  have reached := (made.trans (.of_run shown)).trans (.of_run missed)
  have plain : (outerAsked.client.routers.get? "A").map (fun r =>
      (r.settings.cache, r.known.keys, ["/y", "/x?q", "//x"].map fun path =>
        (r.uncached.resolve path).1.map (·.index)))
      = some (true, ["/x?q", "/y"], [none, some 1, some 1]) := by
    decide +kernel
  obtain ⟨r, router, now⟩ := Option.map_eq_some_iff.1 plain
  obtain ⟨caching, now⟩ := Prod.mk.inj now
  obtain ⟨remembered, answered⟩ := Prod.mk.inj now
  obtain ⟨answers, _⟩ := ((caching_transparent reached).2 "A" r router).1 ["/y", "/x?q", "//x"]
  refine ⟨reached, r, router, caching, remembered, ?_⟩
  rw [answers, List.map_map]
  exact answered

end Live

end PageTree
