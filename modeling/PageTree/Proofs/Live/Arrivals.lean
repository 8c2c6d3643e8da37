/-
  PageTree/Proofs/Live/Arrivals.lean
  ==================================
  **What one navigation does.**

  A navigation without a router, a container or a matching route is turned down,
  and nothing has changed but what the router remembers.  One that is not turned
  down enters its path into the history and into the context of its router, and
  puts the markup of the route into the container, unless the container shows it
  already.  A container that is nested in itself does not survive that.

    * `Trail.honestAll`: routers remember best matches only.
    * `navigate_navigates`: what a navigation answers and leaves behind, if views
      and cleanups are quiet.
-/
import PageTree.Proofs.Live.Silence
import PageTree.Proofs.Live.Trails
import PageTree.Proofs.Routing

namespace PageTree.Live

variable {P : Callbacks} {μ : Type}

/-! ### What routers remember along a trail -/

/-- All routers remember best matches only. -/
structure HonestAll {ρ : Type} (routers : OrderedMap (Router ρ)) : Prop where
  keys : routers.keys.Nodup
  honest : ∀ id r, routers.get? id = some r → r.Honest

namespace HonestAll

variable {ρ : Type} {routers : OrderedMap (Router ρ)}

theorem empty : HonestAll (∅ : OrderedMap (Router ρ)) := ⟨List.nodup_nil, nofun⟩

theorem insert (all : HonestAll routers) (id : String) {r : Router ρ} (honest : r.Honest) :
    HonestAll (routers.insert id r) := by
  refine ⟨OrderedMap.nodup_keys_insert all.keys id r, fun other r' found => ?_⟩
  rw [OrderedMap.get?_insert] at found
  split at found
  · exact Option.some.inj found ▸ honest
  · exact all.honest other r' found

theorem erase (all : HonestAll routers) (id : String) : HonestAll (routers.erase id) := by
  refine ⟨OrderedMap.nodup_keys_erase all.keys id, fun other r found => ?_⟩
  rw [get?_erase all.keys] at found
  split at found
  · cases found
  · exact all.honest other r found

theorem modify (all : HonestAll routers) (id : String) {f : Router ρ → Router ρ}
    (kept : ∀ r : Router ρ, r.Honest → (f r).Honest) : HonestAll (routers.modify id f) := by
  refine ⟨by rw [OrderedMap.keys_modify]; exact all.keys, fun other r found => ?_⟩
  rw [OrderedMap.get?_modify] at found
  split at found
  · obtain ⟨r', there, rfl⟩ := Option.map_eq_some_iff.1 found
    exact kept r' (all.honest other r' there)
  · exact all.honest other r found

end HonestAll

theorem RouterTurn.honestAll {c c' : Client P} (h : RouterTurn c c') (all : HonestAll c.routers) :
    HonestAll c'.routers := by
  cases h with
  | createRouter settings routes => exact all.insert _ (Router.honest_new settings routes)
  | removeRouter id => exact all.erase id
  | findRoute id path =>
    unfold Client.findRoute
    split
    · exact all
    · next r router => exact all.insert id ((all.honest id r router).resolve path).2.1
  | moveRouter id path params => exact all.modify id fun r honest => honest.moveTo path params

theorem Turn.honestAll {c c' : Client P} (h : Turn c c') (all : HonestAll c.routers) :
    HonestAll c'.routers := by
  cases h.kind with
  | inward h => rwa [h.routers]
  | routers h => exact h.honestAll all
  | _ => exact all

theorem Step.honestAll {c c' : Client P} (h : Step c c') (all : HonestAll c.routers) :
    HonestAll c'.routers := by
  cases h with
  | turn h => exact h.honestAll all
  | beginRender n =>
    rcases beginRender_eq c n with same | begun
    · rwa [same]
    · rwa [begun]
  | endSubscription n => rwa [(sheds_endSubscription c n).routers]
  | _ => exact all

theorem Take.honestAll {take : Client P → List (Due P) × Client P} (h : Take take) {c : Client P}
    (all : HonestAll c.routers) : HonestAll (take c).2.routers := by
  cases h with
  | settleEffect e k =>
    simp only [Client.settleEffect]
    split <;> exact all
  | detach n i => rwa [(sheds_detach c n i).routers]
  | clear => exact .empty
  | _ => exact all

theorem Trail.honestAll {document : Document} {c : Client P}
    (h : Trail (Client.new document) c) : HonestAll c.routers := by
  induction h with
  | refl => exact .empty
  | step _ step ih => exact step.honestAll ih
  | take _ taken ih => exact taken.honestAll ih
  | settle _ ih =>
    unfold Client.settle
    split
    · exact .empty
    · exact ih
  | _ => assumption

/-! ### Clients that differ in what routers remember -/

/-- Every router is the same but for what it remembers. -/
def SameRouters (c c' : Client P) : Prop :=
  ∀ id, (c'.routers.get? id).map Router.forgetful = (c.routers.get? id).map Router.forgetful

/-- The clients are the same but for what routers remember. -/
structure Recalls (c c' : Client P) : Prop where
  rest : ∃ routers, c' = { c with routers }
  routers : SameRouters c c'

theorem Recalls.refl (c : Client P) : Recalls c c := ⟨⟨c.routers, rfl⟩, fun _ => rfl⟩

theorem Recalls.document {c c' : Client P} (h : Recalls c c') : c'.document = c.document := by
  obtain ⟨_, rfl⟩ := h.rest
  rfl

theorem Recalls.abandoned {c c' : Client P} (h : Recalls c c') : c'.abandoned = c.abandoned := by
  obtain ⟨_, rfl⟩ := h.rest
  rfl

theorem SameRouters.routerContext {c c' : Client P} (h : SameRouters c c') (id : String) :
    c'.routerContext id = c.routerContext id := by
  have contexts (c : Client P) : c.routerContext id
      = ((c.routers.get? id).map Router.forgetful).map (·.context) := by
    rw [Client.routerContext, Option.map_map]
    rfl
  rw [contexts, contexts, h id]

/-- A router that answers for a path is the same but for what it remembers. -/
theorem recalls_insert {c : Client P} {id : String} {r r' : Router P.View}
    (router : c.routers.get? id = some r) (same : r'.forgetful = r.forgetful) :
    Recalls c { c with routers := c.routers.insert id r' } := by
  refine ⟨⟨_, rfl⟩, fun other => ?_⟩
  rw [OrderedMap.get?_insert]
  split
  · next eq =>
    obtain rfl : id = other := by simpa using eq
    rw [router, Option.map_some, Option.map_some, same]
  · rfl

theorem findRoute_of_honest {c : Client P} {id : String} (path : String) {r : Router P.View}
    (router : c.routers.get? id = some r) (honest : r.Honest) :
    (c.findRoute id path).1 = some ⟨r.settings, (Route.best r.routes path).bind fun m =>
        r.routes[m.index]?.map fun route => (m, route.view)⟩ ∧
      Recalls c (c.findRoute id path).2 := by
  obtain ⟨answer, -, same⟩ := honest.resolve path
  constructor
  · simp only [Client.findRoute, router, answer]
  · simp only [Client.findRoute, router]
    exact recalls_insert router same

/-! ### Filling a container -/

/-- Enters a path into the history and into the context of a router. -/
def Client.arrive (c : Client P) (id path : String) (params : RouteParams) : Client P :=
  (c.modifyDocument (·.visit path)).moveRouter id path params

/-- Gives an element new markup and executes the scripts in it. -/
def Client.fill (c : Client P) (container html : String) : Client P :=
  (c.modifyDocument (·.setHtml container html)).modifyDocument (·.execute container)

theorem Recalls.moveRouter {c c' : Client P} (h : Recalls c c') (id path : String)
    (params : RouteParams) :
    Recalls (c.moveRouter id path params) (c'.moveRouter id path params) := by
  obtain ⟨⟨routers, rfl⟩, same⟩ := h
  refine ⟨⟨_, rfl⟩, fun other => ?_⟩
  -- moving a router does not look at what it remembers
  have moved (r : Option (Router P.View)) :
      (r.map (·.moveTo path params)).map Router.forgetful
        = (r.map Router.forgetful).map (·.moveTo path params) := by
    cases r <;> rfl
  simp only [Client.moveRouter, OrderedMap.get?_modify]
  split
  · rw [moved, moved, same other]
  · exact same other

theorem Recalls.visit {c c' : Client P} (h : Recalls c c') (path : String) :
    Recalls (c.modifyDocument (·.visit path)) (c'.modifyDocument (·.visit path)) := by
  obtain ⟨⟨routers, rfl⟩, same⟩ := h
  exact ⟨⟨routers, rfl⟩, same⟩

namespace Document

variable {d : Document}

theorem history_fill (d : Document) (container html : String) :
    ((d.setHtml container html).execute container).history = d.history :=
  history_setHtml d container html

/-- An element that is not nested in itself shows the markup it is given, and the
    scripts in the markup are executed once. -/
theorem fill_of_outside (nodup : d.elements.keys.Nodup) {container html : String}
    (present : d.has container = true) (outside : ¬ d.Within container container) :
    ((d.setHtml container html).execute container).html? container = some html ∧
      ((d.setHtml container html).execute container).executed
        = d.executed ++ Markup.scriptSources html := by
  have shown : (d.setHtml container html).html? container = some html := by
    obtain ⟨e, found⟩ := has_iff.1 present
    have written := get?_write_of_kept nodup (w := (container, html)) present (fun _ => rfl) outside
    rw [if_pos rfl, found] at written
    exact congrArg (Option.map (·.html)) written
  refine ⟨shown, ?_⟩
  rw [execute, shown, executed_setHtml]
  rfl

/-- An element that is nested in itself is gone as soon as it is given markup. -/
theorem fill_of_ring (nodup : d.elements.keys.Nodup) {container html : String}
    (present : d.has container = true) (ring : d.Within container container) :
    ((d.setHtml container html).execute container).has container = false ∧
      ((d.setHtml container html).execute container).executed = d.executed := by
  have gone : (d.setHtml container html).elements.get? container = none :=
    get?_write_of_nested nodup (w := (container, html)) present (fun _ => rfl) ring
  refine ⟨congrArg Option.isSome gone, ?_⟩
  rw [execute, html?, gone, executed_setHtml]
  exact List.append_nil _

end Document

/-- A container that shows the markup already is left alone; another one is filled
    after components were stopped, if at all. -/
theorem Calls.Quiet.fillContainer {calls : Calls P μ} (quiet : calls.Quiet)
    (settings : RouterSettings) (m : RouteMatch) (html : String) (w : World P μ) :
    (w.client.document.html? settings.container = some html ∧
      calls.fillContainer settings m html w = some (.unchanged m, w)) ∨
    w.client.document.html? settings.container ≠ some html ∧
      ∃ w₁ : World P μ, Sheds w.client w₁.client ∧ calls.fillContainer settings m html w
        = some (.rendered m, { w₁ with client := w₁.client.fill settings.container html }) := by
  by_cases shown : w.client.document.html? settings.container = some html
  · refine .inl ⟨shown, ?_⟩
    unfold Calls.fillContainer
    rw [Act.look_bind, if_pos (by simpa using shown)]
    rfl
  refine .inr ⟨shown, ?_⟩
  unfold Calls.fillContainer
  rw [Act.look_bind, if_neg (by simpa using shown)]
  cases settings.cache with
  | true => exact ⟨w, .refl _, rfl⟩
  | false =>
    obtain ⟨w₁, purged, sheds⟩ := quiet.purge settings.container w
    exact ⟨w₁, sheds, Act.bind_eq_some.2 ⟨(), w₁, purged, rfl⟩⟩

/-! ### One navigation -/

/-- The navigation is not turned down: there are the router, its container and the
    best match among its routes, whose view has rendered the markup. -/
structure Reaches (calls : Calls P μ) (id path : String) (w : World P μ) (r : Router P.View)
    (m : RouteMatch) (html : String) : Prop where
  router : w.client.routers.get? id = some r
  present : w.client.document.has r.settings.container = true
  best : Route.best r.routes path = some m
  viewed : ∃ route c memory, r.routes[m.index]? = some route ∧
    route.match? m.index path = some m ∧ Recalls (w.client.modifyDocument (·.visit path)) c ∧
    calls.view route.view m.params { w with client := c } = some (html, { client := c, memory })

/-- What a navigation answers and leaves behind. -/
inductive Navigates (calls : Calls P μ) (id path : String) (w : World P μ) :
    Except Fault Navigation → World P μ → Prop
  | noRouter {w' : World P μ} (unknown : w.client.routers.get? id = none)
      (kept : Recalls w.client w'.client) (memory : w'.memory = w.memory) :
      Navigates calls id path w (.error (.noRouter id)) w'
  | missingContainer {r : Router P.View} {w' : World P μ}
      (router : w.client.routers.get? id = some r)
      (missing : w.client.document.has r.settings.container = false)
      (kept : Recalls w.client w'.client) (memory : w'.memory = w.memory) :
      Navigates calls id path w (.ok .missingContainer) w'
  | notFound {r : Router P.View} {w' : World P μ} (router : w.client.routers.get? id = some r)
      (present : w.client.document.has r.settings.container = true)
      (unmatched : ∀ route ∈ r.routes, route.pattern.capture? path = none)
      (kept : Recalls w.client w'.client) (memory : w'.memory = w.memory) :
      Navigates calls id path w (.ok .notFound) w'
  | unchanged {r : Router P.View} {m : RouteMatch} {html : String} {w' : World P μ}
      (reaches : Reaches calls id path w r m html)
      (shown : w.client.document.html? r.settings.container = some html)
      (arrived : Recalls (w.client.arrive id path m.params) w'.client) :
      Navigates calls id path w (.ok (.unchanged m)) w'
  | rendered {r : Router P.View} {m : RouteMatch} {html : String} {w' : World P μ}
      (reaches : Reaches calls id path w r m html)
      (other : w.client.document.html? r.settings.container ≠ some html)
      (routers : SameRouters (w.client.arrive id path m.params) w'.client)
      (history : w'.client.document.history = w.client.document.history ++ [path])
      (shown : ¬ w.client.document.Within r.settings.container r.settings.container →
        w'.client.document.html? r.settings.container = some html ∧
          w'.client.document.executed
            = w.client.document.executed ++ Markup.scriptSources html)
      (lost : w.client.document.Within r.settings.container r.settings.container →
        w'.client.document.has r.settings.container = false ∧
          w'.client.document.executed = w.client.document.executed) :
      Navigates calls id path w (.ok (.rendered m)) w'

/-- What a navigation does once it has a route and its container is there. -/
def Calls.follow (calls : Calls P μ) (id path : String) (settings : RouterSettings)
    (m : RouteMatch) (view : P.View) : Act P μ (Except Fault Navigation) := do
  Act.change (·.modifyDocument (·.visit path))
  let html ← calls.view view m.params
  Act.change (·.moveRouter id path m.params)
  return .ok (← calls.fillContainer settings m html)

section

variable {calls : Calls P μ} {id path : String} {w : World P μ}

theorem follow_eq_some {settings : RouterSettings} {m : RouteMatch} {view : P.View} {html : String}
    {w₁ w₂ : World P μ} {navigation : Navigation}
    (viewed : calls.view view m.params
      { w with client := w.client.modifyDocument (·.visit path) } = some (html, w₁))
    (filled : calls.fillContainer settings m html
      { w₁ with client := w₁.client.moveRouter id path m.params } = some (navigation, w₂)) :
    calls.follow id path settings m view w = some (.ok navigation, w₂) := by
  unfold Calls.follow
  rw [Act.change_bind]
  refine Act.bind_eq_some.2 ⟨html, w₁, viewed, ?_⟩
  rw [Act.change_bind]
  exact Act.bind_eq_some.2 ⟨navigation, w₂, filled, rfl⟩

theorem navigates_follow (quiet : calls.Quiet) (nodup : w.client.document.elements.keys.Nodup)
    {r : Router P.View} (router : w.client.routers.get? id = some r)
    (present : w.client.document.has r.settings.container = true) {m : RouteMatch}
    (best : Route.best r.routes path = some m) {c : Client P} (recalls : Recalls w.client c) :
    ∃ route answer w', r.routes[m.index]? = some route ∧
      calls.follow id path r.settings m route.view { w with client := c } = some (answer, w') ∧
      Navigates calls id path w answer w' ∧ w'.client.abandoned = w.client.abandoned := by
  obtain ⟨route, there, matched⟩ := Route.exists_of_best best
  -- the view and the purge leave the document alone, so that the container is filled
  -- in the document as it was, but for the path
  have visited := recalls.visit path
  have arrived := visited.moveRouter id path m.params
  have document : c.document.visit path = w.client.document.visit path := arrived.document
  obtain ⟨html, memory, viewed⟩ := quiet.view route.view m.params
    { w with client := c.modifyDocument (·.visit path) }
  have reaches : Reaches calls id path w r m html :=
    ⟨router, present, best, route, _, memory, there, matched, visited, viewed⟩
  rcases quiet.fillContainer r.settings m html
      { client := (c.modifyDocument (·.visit path)).moveRouter id path m.params, memory } with
    ⟨shown, kept⟩ | ⟨other, w₁, sheds, filled⟩
  · refine ⟨route, _, _, there, follow_eq_some viewed kept, .unchanged reaches ?_ arrived,
      arrived.abandoned⟩
    change (c.document.visit path).html? _ = _ at shown
    rwa [document] at shown
  · have before : w₁.client.document = w.client.document.visit path :=
      sheds.document.trans document
    have after : (w₁.client.fill r.settings.container html).document
        = ((w.client.document.visit path).setHtml r.settings.container html).execute
            r.settings.container :=
      congrArg (fun d => (d.setHtml r.settings.container html).execute r.settings.container) before
    have followed := follow_eq_some (w := { w with client := c }) viewed filled
    refine ⟨route, _, _, there, followed, .rendered reaches ?_ ?_ ?_ ?_ ?_,
      sheds.abandoned.trans arrived.abandoned⟩
    · change (c.document.visit path).html? _ ≠ _ at other
      rwa [document] at other
    · intro i
      have routers : w₁.client.routers.get? i = _ := congrArg (·.get? i) sheds.routers
      exact (congrArg (Option.map Router.forgetful) routers).trans (arrived.routers i)
    · rw [after]
      exact Document.history_fill (w.client.document.visit path) _ _
    · intro outside
      rw [after]
      exact Document.fill_of_outside (d := w.client.document.visit path) nodup present outside
    · intro ring
      rw [after]
      exact Document.fill_of_ring (d := w.client.document.visit path) nodup present ring

/-- A navigation always gives an answer. -/
theorem navigate_navigates (quiet : calls.Quiet) (all : HonestAll w.client.routers)
    (nodup : w.client.document.elements.keys.Nodup) (id path : String) :
    ∃ answer w', calls.navigate id path w = some (answer, w') ∧
      Navigates calls id path w answer w' ∧ w'.client.abandoned = w.client.abandoned := by
  unfold Calls.navigate
  rw [Act.through_bind]
  cases router : w.client.routers.get? id with
  | none =>
    have unknown : w.client.findRoute id path = (none, w.client) := by
      simp only [Client.findRoute, router]
    rw [unknown]
    exact ⟨_, w, rfl, .noRouter router (.refl _) rfl, rfl⟩
  | some r =>
    obtain ⟨found, recalls⟩ := findRoute_of_honest path router (all.honest id r router)
    rw [found]
    generalize (w.client.findRoute id path).2 = c at recalls
    dsimp only
    rw [Act.look_bind, recalls.document]
    cases present : w.client.document.has r.settings.container with
    | false => exact ⟨_, _, rfl, .missingContainer router present recalls rfl, recalls.abandoned⟩
    | true =>
      cases best : Route.best r.routes path with
      | none =>
        exact ⟨_, _, rfl, .notFound router present (Route.best_eq_none_iff.1 best) recalls rfl,
          recalls.abandoned⟩
      | some m =>
        obtain ⟨route, answer, w', there, followed, navigates, kept⟩ :=
          navigates_follow quiet nodup router present best recalls
        refine ⟨answer, w', ?_, navigates, kept⟩
        rw [Option.bind_some, there]
        exact followed

end

end PageTree.Live
