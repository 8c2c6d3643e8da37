/-
  PageTree/Proofs/Live/Itineraries.lean
  =====================================
  **Routers made and navigated, in any order.**

  A navigation has a destination if there are the router, its container and a
  matching route.  After any calls, the history holds the paths of the navigations
  that had one, and a router's context tells of its last two since it was made
  (`itinerary_read_off`).  A container shows what it was filled with, as long as it
  is not nested in itself; two routers can bring that about, each with its
  container in the markup of the other (`ringed_container_shows_nothing`).
-/
import PageTree.Proofs.Live.Arrivals
import PageTree.Proofs.Live.Forests

namespace PageTree.Live

variable {P : Callbacks} {μ : Type}

/-! ### Trips -/

/-- The best match of a router for a path, if the container is there. -/
def Client.destination? (c : Client P) (id path : String) : Option RouteMatch :=
  (c.routers.get? id).bind fun r =>
    if c.document.has r.settings.container then Route.best r.routes path else none

/-- A router is made or navigated, with the world before and after. -/
inductive Stop (P : Callbacks) (μ : Type)
  | created (before : World P μ) (settings : RouterSettings) (routes : List (Route P.View))
      (after : World P μ)
  | navigated (before : World P μ) (id path : String) (answer : Except Fault Navigation)
      (after : World P μ)

namespace Stop

/-- The stop leaves behind what it should. -/
def Conforms (calls : Calls P μ) : Stop P μ → Prop
  | created before settings routes after =>
    after = { before with client := before.client.createRouter settings routes }
  | navigated before id path answer after => Navigates calls id path before answer after

/-- The path of a navigation that has a destination. -/
def path? : Stop P μ → Option String
  | created .. => none
  | navigated before id path _ _ => (before.client.destination? id path).map fun _ => path

/-- The settings with which a router is made here. -/
def settings? (id : String) : Stop P μ → Option RouterSettings
  | created _ settings _ _ => if settings.id = id then some settings else none
  | navigated .. => none

/-- Where a router is navigated to, with the parameters of the match. -/
def trip? (id : String) : Stop P μ → Option (String × RouteParams)
  | created .. => none
  | navigated before other path _ _ =>
    if other = id then (before.client.destination? id path).map fun m => (path, m.params) else none

end Stop

/-- The trips of a router since it was made last. -/
def tripsOf (id : String) (stops : List (Stop P μ)) : List (String × RouteParams) :=
  (stops.rtakeWhile fun stop => (stop.settings? id).isNone).filterMap (·.trip? id)

/-- The context of a router after some stops, given the one it began with: it has
    been moved along the trips since the router was made last. -/
def contextAfter (start : Option RouterContext) (id : String) (stops : List (Stop P μ)) :
    Option RouterContext :=
  let made := (stops.reverse.findSome? (·.settings? id)).map fun settings =>
    ({ cache := settings.cache } : RouterContext)
  (made.or start).map (·.along (tripsOf id stops))

theorem contextAfter_nil (start : Option RouterContext) (id : String) :
    contextAfter start id ([] : List (Stop P μ)) = start := by
  cases start <;> rfl

theorem contextAfter_created (start : Option RouterContext) {id : String}
    {stops : List (Stop P μ)} {stop : Stop P μ} {settings : RouterSettings}
    (made : stop.settings? id = some settings) :
    contextAfter start id (stops ++ [stop]) = some { cache := settings.cache } := by
  have none_since : tripsOf id (stops ++ [stop]) = [] := by
    rw [tripsOf, List.rtakeWhile_concat, made]
    rfl
  rw [contextAfter, none_since, List.reverse_append]
  simp only [List.reverse_singleton, List.singleton_append, List.findSome?_cons, made]
  rfl

theorem contextAfter_other (start : Option RouterContext) {id : String}
    {stops : List (Stop P μ)} {stop : Stop P μ} (kept : stop.settings? id = none) :
    contextAfter start id (stops ++ [stop])
      = (contextAfter start id stops).map (·.along (stop.trip? id).toList) := by
  -- the stop does not make the router, so the trips before it still count
  have trips : tripsOf id (stops ++ [stop]) = tripsOf id stops ++ (stop.trip? id).toList := by
    rw [tripsOf, List.rtakeWhile_concat, kept, if_pos Option.isNone_none, List.filterMap_append]
    cases trip : stop.trip? id <;> simp [tripsOf, trip]
  simp only [contextAfter, trips, List.reverse_append, List.reverse_singleton,
    List.singleton_append, List.findSome?_cons, kept, Option.map_map]
  congr 1
  funext context
  cases stop.trip? id with
  | none =>
    rw [Option.toList_none, List.append_nil]
    rfl
  | some trip => exact context.along_concat _ trip.1 trip.2

/-! ### What a stop enters -/

section

variable {calls : Calls P μ} {id path : String} {w w' : World P μ}
  {answer : Except Fault Navigation}

theorem Reaches.destination? {r : Router P.View} {m : RouteMatch} {html : String}
    (h : Reaches calls id path w r m html) : w.client.destination? id path = some m := by
  rw [Client.destination?, h.router, Option.bind_some, if_pos h.present, h.best]

theorem routerContext_arrive (c : Client P) (id path other : String) (params : RouteParams) :
    (c.arrive id path params).routerContext other
      = (c.routerContext other).map fun context =>
          if id = other then context.moveTo path params else context := by
  simp only [Client.routerContext, Client.arrive, Client.moveRouter, OrderedMap.get?_modify,
    beq_iff_eq, Option.map_map]
  split
  · rw [Option.map_map]
    rfl
  · rfl

/-- The stop enters its path into the history and its trip into the contexts. -/
def Stop.Enters (c c' : Client P) (stop : Stop P μ) : Prop :=
  c'.document.history = c.document.history ++ stop.path?.toList ∧
    ∀ id, c'.routerContext id = (c.routerContext id).map (·.along (stop.trip? id).toList)

theorem enters_of_none (nowhere : w.client.destination? id path = none)
    (kept : Recalls w.client w'.client) :
    (Stop.navigated w id path answer w').Enters w.client w'.client := by
  constructor
  · rw [kept.document, Stop.path?, nowhere]
    exact (List.append_nil _).symm
  · intro other
    have no_trip : (Stop.navigated w id path answer w').trip? other = none := by
      rw [Stop.trip?]
      split
      · next same => rw [← same, nowhere]; rfl
      · rfl
    rw [kept.routers.routerContext, no_trip]
    exact Option.map_id'.symm

theorem enters_of_some {m : RouteMatch} (somewhere : w.client.destination? id path = some m)
    (history : w'.client.document.history = w.client.document.history ++ [path])
    (routers : SameRouters (w.client.arrive id path m.params) w'.client) :
    (Stop.navigated w id path answer w').Enters w.client w'.client := by
  constructor
  · rw [history, Stop.path?, somewhere]
    rfl
  · intro other
    rw [routers.routerContext, routerContext_arrive, Stop.trip?]
    split
    · next same =>
      rw [← same, somewhere]
      rfl
    · rfl

/-- A router that is made begins with an empty context. -/
theorem context_createRouter {c : Client P} {start : Option RouterContext} {stops : List (Stop P μ)}
    (settings : RouterSettings) (routes : List (Route P.View)) (before after : World P μ)
    (known : c.routerContext id = contextAfter start id stops) :
    (c.createRouter settings routes).routerContext id
      = contextAfter start id (stops ++ [.created before settings routes after]) := by
  have stored : (c.createRouter settings routes).routerContext id
      = if settings.id = id then some { cache := settings.cache } else c.routerContext id := by
    simp only [Client.routerContext, Client.createRouter, OrderedMap.get?_insert, beq_iff_eq]
    split <;> rfl
  have made : (Stop.created before settings routes after).settings? id
      = if settings.id = id then some settings else none :=
    rfl
  rw [stored]
  split
  · next own => rw [contextAfter_created start (made.trans (if_pos own))]
  · next other =>
    rw [contextAfter_other start (made.trans (if_neg other)), ← known]
    exact Option.map_id'.symm

/-- A navigation enters its path if it has a destination, and nothing otherwise. -/
theorem Navigates.enters (h : Navigates calls id path w answer w') :
    (Stop.navigated w id path answer w').Enters w.client w'.client := by
  cases h with
  | noRouter unknown kept =>
    refine enters_of_none ?_ kept
    rw [Client.destination?, unknown, Option.bind_none]
  | missingContainer router missing kept =>
    refine enters_of_none ?_ kept
    rw [Client.destination?, router, Option.bind_some, if_neg (by simp [missing])]
  | notFound router present unmatched kept =>
    refine enters_of_none ?_ kept
    rw [Client.destination?, router, Option.bind_some, if_pos present]
    exact Route.best_eq_none_iff.2 unmatched
  | unchanged reaches shown arrived =>
    exact enters_of_some reaches.destination? (congrArg (·.history) arrived.document)
      arrived.routers
  | rendered reaches other routers history =>
    exact enters_of_some reaches.destination? history routers

end

/-! ### Itineraries -/

/-- Routers are made and navigated, one call after another. -/
inductive Itinerary (p : Program P μ) (depth : Nat) (w : World P μ) :
    List (Stop P μ) → World P μ → Prop
  | start : Itinerary p depth w [] w
  | create {stops : List (Stop P μ)} {w₁ w₂ : World P μ} (before : Itinerary p depth w stops w₁)
      (settings : RouterSettings) (routes : List (Route P.View))
      (served : p.run depth (.request (.createRouter settings routes)) w₁ = some ((), w₂)) :
      Itinerary p depth w (stops ++ [.created w₁ settings routes w₂]) w₂
  | navigate {stops : List (Stop P μ)} {w₁ w₂ : World P μ}
      (before : Itinerary p depth w stops w₁) (id path : String)
      {answer : Except Fault Navigation}
      (served : p.run depth (.request (.navigate id path)) w₁ = some (answer, w₂)) :
      Itinerary p depth w (stops ++ [.navigated w₁ id path answer w₂]) w₂

/-- A request from outside, on a client that is not given up. -/
theorem run_request {α : Type} {p : Program P μ} {depth : Nat} {r : Request P α} {w w' : World P μ}
    {a : α} (served : (p.invoke depth).serve none r w = some (a, w'))
    (held : w'.client.abandoned = false) :
    p.run depth (.request r) w = some (a, w') := by
  have settled : w'.client.settle = w'.client := by
    rw [Client.settle, held]
    rfl
  refine Act.bind_eq_some.2 ⟨a, w', Act.bind_eq_some.2 ⟨a, w', served, ?_⟩, rfl⟩
  rw [Act.change_bind, settled]
  rfl

theorem run_createRouter (p : Program P μ) (depth : Nat) {w : World P μ}
    (held : w.client.abandoned = false) (settings : RouterSettings)
    (routes : List (Route P.View)) :
    p.run depth (.request (.createRouter settings routes)) w
      = some ((), { w with client := w.client.createRouter settings routes }) :=
  run_request rfl held

theorem run_navigate {p : Program P μ} (silent : p.Silent) (depth : Nat) {w : World P μ}
    {elements : List (String × String)}
    (reached : Trail (Client.new (Document.ofElements elements)) w.client)
    (held : w.client.abandoned = false) (id path : String) :
    ∃ answer w', p.run (depth + 1) (.request (.navigate id path)) w = some (answer, w') ∧
      Navigates (p.invoke (depth + 1)) id path w answer w' ∧ w'.client.abandoned = false := by
  obtain ⟨answer, w', served, navigates, kept⟩ :=
    navigate_navigates (silent.invoke depth) reached.honestAll reached.tidy.elementKeys id path
  exact ⟨answer, w', run_request served (kept.trans held), navigates, kept.trans held⟩

/-- Where an itinerary comes to. -/
structure Comes (p : Program P μ) (depth : Nat) (w : World P μ) (stops : List (Stop P μ))
    (w' : World P μ) : Prop where
  trail : Trail w.client w'.client
  held : w'.client.abandoned = false
  history : w'.client.document.history
    = w.client.document.history ++ stops.filterMap Stop.path?
  contexts : ∀ id, w'.client.routerContext id = contextAfter (w.client.routerContext id) id stops
  conforms : ∀ stop ∈ stops, stop.Conforms (p.invoke depth)

theorem Comes.next {p : Program P μ} {depth : Nat} {w w₁ w₂ : World P μ} {stops : List (Stop P μ)}
    {stop : Stop P μ} (comes : Comes p depth w stops w₁) (trail : Trail w₁.client w₂.client)
    (held : w₂.client.abandoned = false)
    (history : w₂.client.document.history = w₁.client.document.history ++ stop.path?.toList)
    (contexts : ∀ id, w₂.client.routerContext id
      = contextAfter (w.client.routerContext id) id (stops ++ [stop]))
    (conforms : stop.Conforms (p.invoke depth)) : Comes p depth w (stops ++ [stop]) w₂ where
  trail := comes.trail.trans trail
  held := held
  history := by
    rw [history, comes.history, List.filterMap_append, List.append_assoc]
    cases path : stop.path? <;> simp [path]
  contexts := contexts
  conforms := by
    rw [List.forall_mem_append, List.forall_mem_singleton]
    exact ⟨comes.conforms, conforms⟩

theorem Itinerary.comes {p : Program P μ} (silent : p.Silent) {depth : Nat} {w w' : World P μ}
    {elements : List (String × String)}
    (reached : Trail (Client.new (Document.ofElements elements)) w.client)
    (held : w.client.abandoned = false) {stops : List (Stop P μ)}
    (itinerary : Itinerary p (depth + 1) w stops w') : Comes p (depth + 1) w stops w' := by
  induction itinerary with
  | start =>
    exact ⟨.refl _, held, (List.append_nil _).symm, fun id => (contextAfter_nil _ id).symm,
      List.forall_mem_nil _⟩
  | @create stops w₁ w₂ _ settings routes served ih =>
    have trail := Trail.of_run served
    rw [run_createRouter p (depth + 1) ih.held] at served
    obtain ⟨_, rfl⟩ := Prod.mk.inj (Option.some.inj served)
    have conforms : (Stop.created w₁ settings routes
        { w₁ with client := w₁.client.createRouter settings routes }).Conforms
          (p.invoke (depth + 1)) := by
      rw [Stop.Conforms]
    exact ih.next trail ih.held (List.append_nil _).symm
      (fun id => context_createRouter settings routes _ _ (ih.contexts id)) conforms
  | @navigate stops w₁ w₂ _ id path answer served ih =>
    have trail := Trail.of_run served
    -- a call has one outcome, so this is the one that is known
    obtain ⟨answer', w₂', run, navigates, held⟩ :=
      run_navigate silent depth (reached.trans ih.trail) ih.held id path
    obtain ⟨rfl, rfl⟩ := Prod.mk.inj (Option.some.inj (run.symm.trans served))
    obtain ⟨history, contexts⟩ := navigates.enters
    refine ih.next trail held history (fun other => ?_) navigates
    rw [contexts, ih.contexts, contextAfter_other _ rfl]

/-- Views and cleanups send no requests.  Then after any itinerary the history and
    the contexts of the routers are those of the stops that had a destination, and
    every stop leaves behind what it should: in particular, a container that is
    filled shows its markup if it is not nested in itself, and is gone if it is.
    Every call is answered, as long as the document is a forest, so that its search
    for nested elements has an end. -/
theorem itinerary_read_off {p : Program P μ} (silent : p.Silent) {depth : Nat} {w : World P μ}
    {elements : List (String × String)}
    (reached : Trail (Client.new (Document.ofElements elements)) w.client)
    (held : w.client.abandoned = false) {stops : List (Stop P μ)} {w' : World P μ}
    (itinerary : Itinerary p (depth + 1) w stops w') :
    w'.client.document.history = w.client.document.history ++ stops.filterMap Stop.path? ∧
      (∀ id, w'.client.routerContext id = contextAfter (w.client.routerContext id) id stops) ∧
      (∀ stop ∈ stops, stop.Conforms (p.invoke (depth + 1))) ∧
      (∀ settings routes, ∃ w'', p.run (depth + 1) (.request (.createRouter settings routes)) w'
        = some ((), w'')) ∧
      (w'.client.document.Forest → ∀ id path, ∃ answer w'',
        p.run (depth + 1) (.request (.navigate id path)) w' = some (answer, w'')) := by
  have comes := itinerary.comes silent reached held
  refine ⟨comes.history, comes.contexts, comes.conforms, fun settings routes => ?_,
    fun _ id path => ?_⟩
  · exact ⟨_, run_createRouter p (depth + 1) comes.held settings routes⟩
  · obtain ⟨answer, w'', served, _⟩ :=
      run_navigate silent depth (reached.trans comes.trail) comes.held id path
    exact ⟨answer, w'', served⟩

/-! ### Two containers that hold each other -/

/-- A view is given by its markup. -/
abbrev mirrored : Callbacks where
  Body := Unit
  Effect := Unit
  Cleanup := Unit
  Listener := Unit
  View := String

def mirroredProgram : Program mirrored Unit where
  render _ _ := return .ok ""
  effect _ := return none
  cleanup _ := return ()
  listener _ := return ()
  view html _ := return html

theorem mirrored_silent : mirroredProgram.Silent := ⟨fun _ _ => trivial, fun _ => trivial⟩

def unrouted : World mirrored Unit := ⟨Client.new (Document.ofElements [("a", "")]), ()⟩

def outerSettings : RouterSettings := { id := "A", container := "a", cache := true }

def outerRoutes : List (Route mirrored.View) :=
  [⟨.parse "/", "<i id=\"b\"></i>"⟩, ⟨.parse "/x", "x"⟩]

def innerSettings : RouterSettings := { id := "B", container := "b" }

def innerRoutes : List (Route mirrored.View) := [⟨.parse "/", "<i id=\"a\"></i>"⟩]

def outerMade : World mirrored Unit :=
  { unrouted with client := unrouted.client.createRouter outerSettings outerRoutes }

def innerMade : World mirrored Unit :=
  { outerMade with client := outerMade.client.createRouter innerSettings innerRoutes }

def goTo (w : World mirrored Unit) (id path : String) :
    Except Fault Navigation × World mirrored Unit :=
  (mirroredProgram.run 1 (.request (.navigate id path)) w).getD (.ok .notFound, w)

def outerShown : World mirrored Unit := (goTo innerMade "A" "/").2
def innerShown : World mirrored Unit := (goTo outerShown "B" "/").2
def outerLeft : World mirrored Unit := (goTo innerShown "A" "/x").2

def leaving : RouteMatch := { index := 1, pattern := "/x", params := ∅, score := 2 }

def crossing : List (Stop mirrored Unit) :=
  [.created unrouted outerSettings outerRoutes outerMade,
    .created outerMade innerSettings innerRoutes innerMade,
    .navigated innerMade "A" "/" (goTo innerMade "A" "/").1 outerShown,
    .navigated outerShown "B" "/" (goTo outerShown "B" "/").1 innerShown,
    .navigated innerShown "A" "/x" (goTo innerShown "A" "/x").1 outerLeft]

theorem run_goTo {w : World mirrored Unit} {id path : String}
    (answers : (mirroredProgram.run 1 (.request (.navigate id path)) w).isSome) :
    mirroredProgram.run 1 (.request (.navigate id path)) w = some (goTo w id path) :=
  (Option.getD_of_ne_none (Option.isSome_iff_ne_none.1 answers) _).symm

theorem itinerary_crossing : Itinerary mirroredProgram 1 unrouted crossing outerLeft := by
  have first := Itinerary.create (P := mirrored) .start outerSettings outerRoutes
    (run_createRouter mirroredProgram 1 (w := unrouted) rfl _ _)
  have second := first.create innerSettings innerRoutes
    (run_createRouter mirroredProgram 1 (w := outerMade) rfl _ _)
  have third := second.navigate "A" "/" (run_goTo (w := innerMade) (by decide +kernel))
  have fourth := third.navigate "B" "/" (run_goTo (w := outerShown) (by decide +kernel))
  exact fourth.navigate "A" "/x" (run_goTo (w := innerShown) (by decide +kernel))

theorem crossing_leaves : (goTo innerShown "A" "/x").1 = .ok (.rendered leaving) :=
  eq_ok_of_toOption (by decide +kernel)

/-- All five calls are answered, and the paths of the three navigations are entered. -/
theorem crossing_read_off : mirroredProgram.Silent ∧
    Trail (Client.new (Document.ofElements [("a", "")])) unrouted.client ∧
    unrouted.client.abandoned = false ∧
    Itinerary mirroredProgram 1 unrouted crossing outerLeft ∧
    outerLeft.client.document.history = ["/", "/", "/x"] ∧
    outerLeft.client.routerContext "A"
      = some { current := some "/x", previous := some "/", params := ∅, cache := true } := by
  have fresh : Trail (Client.new (Document.ofElements [("a", "")])) unrouted.client := .refl _
  obtain ⟨history, contexts, _⟩ := itinerary_read_off mirrored_silent fresh rfl itinerary_crossing
  refine ⟨mirrored_silent, fresh, rfl, itinerary_crossing, ?_, ?_⟩
  · rw [history]
    decide +kernel
  · rw [contexts]
    decide +kernel

/-- The last navigation says that it has rendered its route.  Its container was
    nested in itself by then, and does not show the markup: it is gone. -/
theorem ringed_container_shows_nothing :
    Itinerary mirroredProgram 1 unrouted crossing outerLeft ∧
      ¬ ∀ before id path m after,
        Stop.navigated before id path (.ok (.rendered m)) after ∈ crossing →
        ∀ r html, Reaches (mirroredProgram.invoke 1) id path before r m html →
          after.client.document.html? r.settings.container = some html := by
  refine ⟨itinerary_crossing, fun claim => ?_⟩
  have last :
      Stop.navigated innerShown "A" "/x" (.ok (.rendered leaving)) outerLeft ∈ crossing := by
    rw [crossing, crossing_leaves]
    exact List.mem_of_getElem? (i := 4) rfl
  have fresh : Trail (Client.new (Document.ofElements [("a", "")])) unrouted.client := .refl _
  have comes := itinerary_crossing.comes mirrored_silent fresh rfl
  have navigates : Navigates (mirroredProgram.invoke 1) "A" "/x" innerShown
      (.ok (.rendered leaving)) outerLeft :=
    comes.conforms _ last
  cases navigates with
  | @rendered r _ html _ reaches _ _ _ _ lost =>
    have container : (innerShown.client.routers.get? "A").map (·.settings.container)
        = some "a" := by
      decide +kernel
    have ring : innerShown.client.document.Within "a" "a" :=
      Document.isNestedIn_iff.1 (by decide +kernel)
    rw [reaches.router] at container
    obtain container : r.settings.container = "a" := Option.some.inj container
    have shown := claim _ _ _ _ _ last r html reaches
    rw [container] at shown lost
    have gone : outerLeft.client.document.html? "a" = none := by
      rw [Document.html?, Document.get?_eq_none_iff.2 (by simp [(lost ring).1])]
      rfl
    rw [gone] at shown
    cases shown

end PageTree.Live
