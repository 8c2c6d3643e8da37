/-
  PageTree/Route/Router.lean
  ==========================
  **Routers.**

  A router holds routes in the order of their registration.  Of the routes whose
  pattern matches a path the most specific one is taken, among equally specific
  ones the first.  A caching router remembers the answer for each path.
-/
import PageTree.Json.Basic
import PageTree.Outline
import PageTree.Route.Pattern
import PageTree.Settings

namespace PageTree

/-- A pattern with the way its markup is made. -/
structure Route (ρ : Type) where
  pattern : RoutePattern
  view : ρ

/-- The route taken for a path. -/
structure RouteMatch where
  /-- The position of the route among the routes. -/
  index : Nat
  pattern : String
  params : RouteParams
  score : Nat
deriving DecidableEq

/-- Where a router has been navigated to. -/
structure RouterContext where
  current : Option String := none
  previous : Option String := none
  params : RouteParams := ∅
  cache : Bool := false
deriving DecidableEq

namespace RouteParams

def toJson (params : RouteParams) : Json :=
  .ofFields (params.entries.map fun (name, text) => (name, .string text))

end RouteParams

namespace RouteMatch

def toJson (m : RouteMatch) : Json :=
  .ofFields
    [("index", .ofNat m.index), ("pattern", .string m.pattern),
      ("params", RouteParams.toJson m.params), ("score", .ofNat m.score)]

end RouteMatch

namespace RouterContext

def pathJson (path : Option String) : Json := (path.map Json.string).getD .null

def toJson (c : RouterContext) : Json :=
  .ofFields
    [("current_path", pathJson c.current), ("previous_path", pathJson c.previous),
      ("params", RouteParams.toJson c.params), ("cache", .bool c.cache)]

def moveTo (c : RouterContext) (path : String) (params : RouteParams) : RouterContext :=
  { c with current := some path, previous := c.current, params }

end RouterContext

/-- The better of two matches, the earlier one if they are equally specific. -/
def RouteMatch.better (best : Option RouteMatch) (m : RouteMatch) : Option RouteMatch :=
  match best with
  | none => some m
  | some b => if b.score < m.score then some m else some b

/-- The match of the route at a position. -/
def Route.match? {ρ : Type} (r : Route ρ) (index : Nat) (path : String) : Option RouteMatch :=
  (r.pattern.capture? path).map fun params =>
    { index, pattern := r.pattern.source, params, score := r.pattern.score }

/-- The best match among routes from a position on, given the best before. -/
def Route.bestFrom {ρ : Type} (path : String) :
    Nat → Option RouteMatch → List (Route ρ) → Option RouteMatch
  | _, best, [] => best
  | index, best, r :: rs =>
    match r.match? index path with
    | none => bestFrom path (index + 1) best rs
    | some m => bestFrom path (index + 1) (RouteMatch.better best m) rs

/-- The best match among routes. -/
def Route.best {ρ : Type} (routes : List (Route ρ)) (path : String) : Option RouteMatch :=
  bestFrom path 0 none routes

/-- Routes with their settings and the place navigated to. -/
structure Router (ρ : Type) where
  settings : RouterSettings
  routes : List (Route ρ)
  context : RouterContext
  /-- The answers given so far, if the router is caching. -/
  known : OrderedMap (Option RouteMatch) := ∅

namespace Router

variable {ρ : Type}

/-- A router that has not been navigated yet. -/
def new (settings : RouterSettings) (routes : List (Route ρ)) : Router ρ :=
  { settings, routes, context := { cache := settings.cache } }

/-- The route taken for a path, and the router that remembers it. -/
def resolve (r : Router ρ) (path : String) : Option RouteMatch × Router ρ :=
  if r.settings.cache then
    match r.known.get? path with
    | some answer => (answer, r)
    | none =>
      let answer := Route.best r.routes path
      (answer, { r with known := r.known.insert path answer })
  else (Route.best r.routes path, r)

/-- The path of the first route with a pattern, its parameters filled in. -/
def reverse? (r : Router ρ) (pattern : String) (params : RouteParams) : Option String :=
  (r.routes.find? fun route => route.pattern.source == pattern).bind
    fun route => route.pattern.reverse? params

def moveTo (r : Router ρ) (path : String) (params : RouteParams) : Router ρ :=
  { r with context := r.context.moveTo path params }

end Router

/-! ### Outlines -/

namespace Outline

def routeParams (params : RouteParams) : String := map (Json.sortFields params.entries)

def router {ρ : Type} (r : Router ρ) : String :=
  record "Router"
    [("config", record "RouterConfig"
        [("id", quote r.settings.id), ("container_id", quote r.settings.container),
          ("cache", bool r.settings.cache)]),
      ("routes", list (r.routes.map fun route =>
        record "Route" [("pattern", quote route.pattern.source)])),
      ("context", record "RouterContext"
        [("current_path", optionalText r.context.current),
          ("previous_path", optionalText r.context.previous),
          ("params", routeParams r.context.params), ("cache", bool r.context.cache)])]

end Outline

end PageTree
