/-
  PageTree/Proofs/Live/Navigation.lean
  ====================================
  **What a navigation tears down.**

  Before a router that does not cache fills its container, it stops and forgets
  what is on the elements nested in the container.  It asks the document which
  these are, and the document only knows elements that are there: a component
  whose element was dropped by an earlier render is passed over.

    * `navigation_clears_nested`: on every element that is nested in the
      container when the purge begins, at any depth, everything is gone
      afterwards; on the others the components stay mounted, unless a cleanup
      stops them.
    * `dropped_element_stays_mounted`: a component whose element was dropped is
      still mounted after the navigation.
-/
import PageTree.Proofs.Live.Accounts
import PageTree.Proofs.Live.Instances
import PageTree.Proofs.Live.Nesting

namespace PageTree.Live

variable {P : Callbacks} {μ α : Type}

/-! ### Components that leave the table -/

/-- A stretch of a run after which every component that was in the table is there
    still or has been stopped. -/
structure Retires (c c' : Client P) : Prop where
  path : Path c c'
  retired : Wired c → ∀ id n, c.mounted.get? id = some n →
    c'.mounted.get? id = some n ∨ Stopped c' n

theorem Retires.of_mounted_eq {c c' : Client P} (path : Path c c')
    (same : c'.mounted = c.mounted) : Retires c c' := by
  refine ⟨path, fun _ id n stored => .inl ?_⟩
  rw [same]
  exact stored

theorem retires_composes : Composes (Retires (P := P)) where
  refl c := .of_mounted_eq (.refl c) rfl
  trans := by
    intro c c' c'' first second
    refine ⟨first.path.trans second.path, fun wired id n stored => ?_⟩
    rcases first.retired wired id n stored with still | stopped
    · exact second.retired (first.path.wired wired) id n still
    · exact .inr (second.path.ages.stopped stopped)

theorem retires_turn {c c' : Client P} (h : Turn c c') : Retires c c' := by
  have way : Path c c' := .change (.refl c) h.change
  rcases h.aside with aside | ⟨n, rfl⟩ | ⟨id, l, rfl⟩
  · exact .of_mounted_eq way aside.mounted
  · exact .of_mounted_eq way rfl
  · exact .of_mounted_eq way rfl

theorem retires_beginRender (c : Client P) (n : Nat) : Retires c (c.beginRender n).2 := by
  refine .of_mounted_eq (.change (.refl c) (.beginRender c n)) ?_
  rcases beginRender_eq c n with same | begun
  · rw [same]
  · rw [begun]
    rfl

theorem retires_endSubscription (c : Client P) (n : Nat) : Retires c (c.endSubscription n).2 := by
  refine .of_mounted_eq (.change (.refl c) (.endSubscription c n)) ?_
  rcases endSubscription_eq c n with same | ⟨i, l, _, _, ended⟩
  · rw [same]
  · rw [ended]
    rfl

theorem retires_detach (c : Client P) (n : Nat) (i : Instance P) :
    Retires c (c.detach n i).2 := by
  have way := Path.take (.refl c) (.detach n i)
  refine ⟨way, fun wired id m stored => ?_⟩
  rw [mounted_detach]
  split
  · next own =>
    rw [get?_erase wired.mountedKeys]
    split
    · next same =>
      rw [same, stored] at own
      obtain rfl := Option.some.inj own
      obtain ⟨i', found, _⟩ := wired.stored id m stored
      refine .inr ⟨{ i' with mounted := false }, ?_, rfl⟩
      rw [instance?_detach, if_pos rfl, found]
      rfl
    · exact .inl stored
  · exact .inl stored

theorem retires_clear (c : Client P) : Retires c c.clear.2 := by
  have way := Path.take (.refl c) .clear
  refine ⟨way, fun wired id n stored => .inr ?_⟩
  obtain ⟨i, found, _⟩ := wired.stored id n stored
  have listed : n ∈ c.mounted.entries.map (·.2) :=
    List.mem_map.2 ⟨_, OrderedMap.mem_of_get? stored, rfl⟩
  refine ⟨{ i with mounted := false }, ?_, rfl⟩
  rw [instance?_clear, if_pos listed, found]
  rfl

section

variable {calls : Calls P μ} (callbacks : calls.Move Retires)

include callbacks

theorem retires_undo (ds : List (Due P)) : (ds.forM calls.undo).Moves Retires :=
  retires_composes.moves_forM_undo (fun c _ => .of_mounted_eq (.note (.refl c) _) rfl)
    callbacks.cleanup ds

theorem retires_undoAll {take : Client P → List (Due P) × Client P}
    (taken : ∀ c, Retires c (take c).2) : (calls.undoAll take).Moves Retires :=
  .bind retires_composes (.through taken) fun ds => retires_undo callbacks ds

theorem retires_runPass (id : String) (body : P.Body) :
    (calls.runPass id body).Moves Retires := by
  apply retires_composes.moves_runPass
  · intro c id
    exact .of_mounted_eq (.beginPass (.refl c) id) rfl
  · intro c previous
    exact .of_mounted_eq (.endPass (.refl c) previous) rfl
  · exact callbacks.render

theorem retires_runEffect (e : PendingEffect P) : (calls.runEffect e).Moves Retires := by
  refine retires_composes.moves_runEffect (fun e => ?_) callbacks.effect (fun e k => ?_) e
  · refine retires_undoAll callbacks fun c => ?_
    have way := Path.take (.refl c) (.takeCleanup e)
    exact .of_mounted_eq way rfl
  · refine retires_undoAll callbacks fun c => ?_
    have way := Path.take (.refl c) (.settleEffect e k)
    refine .of_mounted_eq way ?_
    unfold Client.settleEffect
    split <;> rfl

theorem retires_cleanUp (id : String) : (calls.cleanUp id).Moves Retires := by
  refine retires_undoAll callbacks fun c => ?_
  have way := Path.take (.refl c) (.forget id)
  exact .of_mounted_eq way rfl

theorem retires_renderInstance (n : Nat) : (calls.renderInstance n).Moves Retires := by
  have ended (c : Client P) (n : Nat) : Retires c (c.endRender n) :=
    .of_mounted_eq (.change (.refl c) (.endRender c n)) rfl
  exact retires_composes.moves_renderInstance retires_turn retires_beginRender ended
    (retires_runPass callbacks) (retires_runEffect callbacks) n

theorem retires_tearDown (n : Nat) : (calls.tearDown n).Moves Retires :=
  retires_composes.moves_tearDown
    (fun n i => retires_undoAll callbacks fun c => retires_detach c n i)
    retires_endSubscription (retires_cleanUp callbacks) n

theorem stopped_of_tearDown {n : Nat} {i : Instance P} {w w' : World P μ}
    (found : w.client.instance? n = some i) (h : calls.tearDown n w = some ((), w')) :
    Stopped w'.client n := by
  unfold Calls.tearDown at h
  rw [Act.look_bind, found] at h
  obtain ⟨_, w₁, undone, h⟩ := Act.bind_eq_some.1 h
  rw [Act.through_bind] at h
  have during := (retires_undo callbacks _ _ _ _ undone).path
  have left := during.trans (.change (.refl _) (.endSubscription w₁.client n))
  have stopped := left.ages.stopped (detach_stops w.client found)
  split at h
  · exact (retires_cleanUp callbacks i.element _ _ _ h).path.ages.stopped stopped
  · obtain rfl : _ = w' := congrArg Prod.snd (Option.some.inj h)
    exact stopped

/-- What was mounted on an element has been stopped, and what is found in the
    table later was put there after the entry was taken out. -/
theorem retires_unmountElement {id : String} {w w' : World P μ}
    (h : calls.unmountElement id w = some ((), w')) :
    Retires w.client w'.client ∧ Path (w.client.takeMounted id).2 w'.client ∧
      (Wired w.client → ∀ n, w.client.mounted.get? id = some n → Stopped w'.client n) := by
  have taken : Path w.client (w.client.takeMounted id).2 :=
    .change (.refl _) (.takeMounted w.client id)
  unfold Calls.unmountElement at h
  rw [Act.through_bind] at h
  cases stored : w.client.mounted.get? id with
  | none =>
    have absent : (w.client.takeMounted id).1 = none := stored
    rw [absent] at h
    obtain rfl : _ = w' := congrArg Prod.snd (Option.some.inj h)
    have same : (w.client.takeMounted id).2.mounted = w.client.mounted :=
      congrArg OrderedMap.mk (OrderedMap.get?_eq_none_absent stored).2.2.2
    exact ⟨.of_mounted_eq taken same, .refl _, fun _ _ h => (nomatch h)⟩
  | some n =>
    have present : (w.client.takeMounted id).1 = some n := stored
    rw [present] at h
    have torn : calls.tearDown n { w with client := (w.client.takeMounted id).2 }
        = some ((), w') := h
    have rest := retires_tearDown callbacks n _ _ _ torn
    have stopped (wired : Wired w.client) : Stopped w'.client n := by
      obtain ⟨i, found, _⟩ := wired.stored id n stored
      exact stopped_of_tearDown callbacks (w := { w with client := (w.client.takeMounted id).2 })
        found torn
    refine ⟨⟨taken.trans rest.path, fun wired e m entry => ?_⟩, rest.path, ?_⟩
    · by_cases same : id = e
      · rw [← same, stored] at entry
        obtain rfl := Option.some.inj entry
        exact .inr (stopped wired)
      · refine rest.retired (taken.wired wired) e m ?_
        rw [Client.takeMounted, get?_erase wired.mountedKeys, if_neg same]
        exact entry
    · intro wired m entry
      obtain rfl := Option.some.inj entry
      exact stopped wired

theorem retires_mount (id : String) (body : P.Body) : (calls.mount id body).Moves Retires := by
  intro w a w' h
  unfold Calls.mount at h
  rw [Act.look_bind] at h
  split at h
  · obtain rfl : w = w' := congrArg Prod.snd (Option.some.inj h)
    exact retires_composes.refl _
  · obtain ⟨_, w₁, vacated, h⟩ := Act.bind_eq_some.1 h
    obtain ⟨vacates, _, stopped⟩ := retires_unmountElement callbacks vacated
    rw [Act.through_bind] at h
    -- what stood under the element has been stopped before the new entry is made
    have enters : Retires w.client (w₁.client.addInstance id body).2 := by
      have added : Path w₁.client (w₁.client.addInstance id body).2 :=
        .change (.refl _) (.addInstance w₁.client id body)
      refine ⟨vacates.path.trans added, fun wired e n entry => ?_⟩
      by_cases same : id = e
      · subst same
        exact .inr (added.ages.stopped (stopped wired n entry))
      · rw [mounted_addInstance, if_neg same]
        rcases vacates.retired wired e n entry with still | gone
        · exact .inl still
        · exact .inr (added.ages.stopped gone)
    obtain ⟨result, w₂, rendered, h⟩ := Act.bind_eq_some.1 h
    have shown := retires_composes.trans enters
      (retires_renderInstance callbacks _ _ _ _ rendered)
    cases result with
    | ok _ =>
      obtain rfl : w₂ = w' := congrArg Prod.snd (Option.some.inj h)
      exact shown
    | error e =>
      obtain ⟨_, w₃, torn, h⟩ := Act.bind_eq_some.1 h
      obtain rfl : w₃ = w' := congrArg Prod.snd (Option.some.inj h)
      exact retires_composes.trans shown (retires_tearDown callbacks _ _ _ _ torn)

theorem retires_purgeAll (nested : List String) : (nested.forM fun e => do
      calls.unmountElement e
      calls.cleanUp e).Moves Retires := by
  refine .forM retires_composes (fun e => ?_) nested
  refine .bind retires_composes (fun w a w' h => ?_) fun _ => retires_cleanUp callbacks e
  exact (retires_unmountElement callbacks h).1

end

/-- Whatever callbacks ask for, components leave the table only when they are
    stopped. -/
theorem retires_regime :
    Regime (P := P) (fun _ => True) (fun _ _ => True) Retires := by
  exact
    { retires_composes with
      turn := retires_turn
      abandon := fun _ c => .of_mounted_eq (.change (.refl c) (.abandon c)) rfl
      unsubscribe := fun _ c => .of_mounted_eq (.change (.refl c) (.unsubscribe c _ _)) rfl
      cleanUp := fun _ callbacks => retires_cleanUp callbacks.toMove _
      runPass := fun callbacks => retires_runPass callbacks.toMove
      runEffect := fun callbacks => retires_runEffect callbacks.toMove
      reset := fun callbacks => retires_undoAll callbacks.toMove retires_clear
      renderInstance := fun callbacks => retires_renderInstance callbacks.toMove
      tearDown := fun callbacks => retires_tearDown callbacks.toMove
      mount := fun callbacks => retires_mount callbacks.toMove
      purge := fun callbacks id =>
        .bind retires_composes (.look retires_composes _) (retires_purgeAll callbacks.toMove) }

/-! ### The purge -/

/-- All that an element had at one moment is gone at a later one: the component
    in the table has been stopped, what is found in the tables is new, and the
    cleanups that were due were run or overwritten. -/
structure Cleared (id : String) (c c' : Client P) : Prop where
  stopped : ∀ n, c.mounted.get? id = some n → Stopped c' n
  mounted : ∀ n, c'.mounted.get? id = some n → c.instances.length ≤ n
  record : ∀ r, c'.records.get? id = some r → c.nextRecord ≤ r.number
  listeners : ∀ e ∈ c'.listenersOf id, c.nextListener ≤ e.1
  settled : ∃ recent, c'.history = recent ++ c.history ∧
    ((c.recordOf id).cleanups : Multiset (Due P)) ≤ invoked recent + overwritten recent

theorem Cleared.not_mounted {id : String} {c c' : Client P} (h : Cleared id c c')
    (wired : Wired c') (same : c'.instances.length = c.instances.length) :
    c'.isMounted id = false := by
  cases stored : c'.mounted.get? id with
  | none => simp [Client.isMounted, OrderedMap.contains, stored]
  | some n =>
    obtain ⟨i, found, _⟩ := wired.stored id n stored
    have lt := lt_of_instance? found
    have ge := h.mounted n stored
    omega

theorem Cleared.stateOf {id : String} {c c' : Client P} (h : Cleared id c c')
    (wired : Wired c') (numbered : Numbered c') (records : c'.nextRecord = c.nextRecord)
    (listeners : c'.nextListener = c.nextListener) : c'.stateOf id = {} := by
  have no_record : c'.records.get? id = none := by
    cases found : c'.records.get? id with
    | none => rfl
    | some r =>
      have lt := numbered.below _ (mem_tags found)
      have ge := h.record r found
      omega
  have no_listener : c'.listenersOf id = [] := by
    rw [List.eq_nil_iff_forall_not_mem]
    intro e member
    have lt := wired.below id e member
    have ge := h.listeners e member
    omega
  simp only [Client.stateOf, Client.recordOf, no_record, no_listener]
  rfl

section

variable {calls : Calls P μ} (callbacks : calls.Move Retires) (accounts : calls.Move Balanced)

include callbacks

theorem path_cleanUp {id : String} {w w' : World P μ} (h : calls.cleanUp id w = some ((), w')) :
    Path (w.client.forget id).2 w'.client :=
  (retires_undo callbacks _ _ _ _ h).path

/-- What is stopped and forgotten in between is cleared from beginning to end. -/
theorem cleared_of_stages {id : String} {w w₁ w₂ w₃ : World P μ} {c : Client P}
    (wired : Wired w.client) (numbered : Numbered w.client) (before : Retires w.client w₁.client)
    (vacated : calls.unmountElement id w₁ = some ((), w₂))
    (forgotten : calls.cleanUp id w₂ = some ((), w₃)) (after : Path w₃.client c)
    (account : Balanced w.client c) : Cleared id w.client c := by
  obtain ⟨vacates, since, stopped⟩ := retires_unmountElement callbacks vacated
  have wired₁ := before.path.wired wired
  have way₁ := before.path.trans vacates.path
  have wired₂ := way₁.wired wired
  have forgets := (path_cleanUp callbacks forgotten).trans after
  have taken : Path w₁.client (w₁.client.takeMounted id).2 :=
    .change (.refl _) (.takeMounted w₁.client id)
  have erased : Path w₂.client (w₂.client.forget id).2 := by
    have way := Path.take (.refl w₂.client) (.forget id)
    exact way
  have whole := (way₁.trans erased).trans forgets
  have record (r : HookRecord P) (found : c.records.get? id = some r) :
      w.client.nextRecord ≤ r.number := by
    have gone : (w₂.client.forget id).2.records.get? id = none := by
      have keys := (way₁.succeeds.numbered numbered).keys
      rw [tags, List.map_map] at keys
      exact OrderedMap.get?_erase_self id keys
    exact (way₁.trans erased).succeeds.next.trans (forgets.later gone found)
  refine ⟨?_, ?_, record, ?_, account.settled numbered whole.succeeds record⟩
  · intro n stored
    have later := erased.trans forgets
    rcases before.retired wired id n stored with still | gone
    · exact later.ages.stopped (stopped wired₁ n still)
    · exact (vacates.path.trans later).ages.stopped gone
  · intro n found
    have later := since.trans (erased.trans forgets)
    rcases (later.renews (taken.wired wired₁)).mounted id n found with old | new
    · rw [Client.takeMounted, get?_erase wired₁.mountedKeys, if_pos rfl] at old
      cases old
    · exact (before.path.trans taken).ages.length.trans new
  · intro e found
    rcases (forgets.renews (erased.wired wired₂)).listeners id e found with old | new
    · have none_left : (w₂.client.forget id).2.listenersOf id = [] := by
        show ((w₂.client.listeners.erase id).get? id).getD [] = []
        rw [OrderedMap.get?_erase_self id wired₂.listenerKeys]
        rfl
      rw [none_left] at old
      cases old
    · exact ((way₁.trans erased).renews wired).next.trans new

include accounts

/-- A purge clears every element that is nested in the container when it
    begins. -/
theorem cleared_of_purge {container : String} {w w' : World P μ} (wired : Wired w.client)
    (numbered : Numbered w.client) (h : calls.purge container w = some ((), w')) :
    Path w.client w'.client ∧
      ∀ e, w.client.document.Within e container → Cleared e w.client w'.client := by
  unfold Calls.purge at h
  rw [Act.look_bind] at h
  refine ⟨(retires_purgeAll callbacks _ _ _ _ h).path, fun e within => ?_⟩
  have account : Balanced w.client w'.client :=
    balanced.regime.purge ⟨accounts, fun _ _ _ _ _ => trivial⟩ container w () w' h
  have listed := Document.mem_descendants.2 within
  obtain ⟨first, last, split⟩ := List.append_of_mem listed
  rw [split, List.forM_eq_forM, List.forM_append] at h
  obtain ⟨_, w₁, before, h⟩ := Act.bind_eq_some.1 h
  rw [List.forM_cons] at h
  obtain ⟨_, w₃, here, after⟩ := Act.bind_eq_some.1 h
  obtain ⟨_, w₂, vacated, forgotten⟩ := Act.bind_eq_some.1 here
  exact cleared_of_stages callbacks wired numbered (retires_purgeAll callbacks _ _ _ _ before)
    vacated forgotten (retires_purgeAll callbacks _ _ _ _ after).path account

end

/-! ### Elements that are not listed -/

theorem mounted_purgeAll {calls : Calls P μ} (quietly : ∀ k, (calls.cleanup k).Moves SameTable)
    (callbacks : calls.Move Retires) {nested : List String} {w w' : World P μ}
    (wired : Wired w.client) (h : (nested.forM fun e => do
      calls.unmountElement e
      calls.cleanUp e) w = some ((), w')) (id : String) :
    w'.client.mounted.get? id = if id ∈ nested then none else w.client.mounted.get? id := by
  induction nested generalizing w with
  | nil =>
    obtain rfl : w = w' := congrArg Prod.snd (Option.some.inj h)
    simp
  | cons e nested ih =>
    obtain ⟨_, w₂, here, rest⟩ := Act.bind_eq_some.1 h
    obtain ⟨_, w₁, vacated, forgotten⟩ := Act.bind_eq_some.1 here
    have way := (retires_unmountElement callbacks vacated).1.path.trans
      (retires_cleanUp callbacks e _ _ _ forgotten).path
    have table : w₂.client.mounted = w.client.mounted.erase e :=
      (sameTable_cleanUp quietly e _ _ _ forgotten).trans
        (mounted_unmountElement quietly wired vacated)
    rw [ih (way.wired wired) rest, table, get?_erase wired.mountedKeys]
    by_cases listed : id ∈ nested
    · simp [listed]
    · by_cases same : e = id
      · simp [same]
      · simp [listed, same, Ne.symm same]

/-! ### Navigations -/

theorem navigate_eq_some {calls : Calls P μ} {id path : String} {w w' : World P μ}
    {m : RouteMatch} {r : Router P.View} (router : w.client.routers.get? id = some r)
    (uncached : r.settings.cache = false)
    (h : calls.navigate id path w = some (.ok (.rendered m), w')) :
    ∃ v html w₀ w₁, calls.view v m.params
        { w with client := (w.client.findRoute id path).2.modifyDocument (·.visit path) }
          = some (html, w₀) ∧
      calls.purge r.settings.container
        { w₀ with client := w₀.client.moveRouter id path m.params } = some ((), w₁) ∧
      w' = { w₁ with client := (w₁.client.modifyDocument
        (·.setHtml r.settings.container html)).modifyDocument (·.execute r.settings.container) } := by
  obtain ⟨destination, known, settings⟩ : ∃ destination,
      (w.client.findRoute id path).1 = some destination ∧ destination.settings = r.settings := by
    simp only [Client.findRoute, router]
    exact ⟨_, rfl, rfl⟩
  unfold Calls.navigate at h
  rw [Act.through_bind, known] at h
  dsimp only at h
  rw [Act.look_bind] at h
  split at h
  · cases (Prod.mk.inj (Option.some.inj h)).1
  · cases target : destination.target with
    | none =>
      rw [target] at h
      cases (Prod.mk.inj (Option.some.inj h)).1
    | some found =>
      obtain ⟨m', v⟩ := found
      rw [target] at h
      dsimp only at h
      rw [Act.change_bind] at h
      obtain ⟨html, w₀, viewed, h⟩ := Act.bind_eq_some.1 h
      rw [Act.change_bind] at h
      obtain ⟨navigation, w₂, filled, h⟩ := Act.bind_eq_some.1 h
      obtain ⟨answer, rfl⟩ := Prod.mk.inj (Option.some.inj h)
      obtain rfl : navigation = .rendered m := Except.ok.inj answer
      unfold Calls.fillContainer at filled
      rw [Act.look_bind] at filled
      rw [settings, uncached] at filled
      split at filled
      · cases (Prod.mk.inj (Option.some.inj filled)).1
      · obtain ⟨_, w₁, purged, filled⟩ := Act.bind_eq_some.1 filled
        dsimp only at filled
        rw [Act.change_bind, Act.change_bind] at filled
        obtain ⟨answer, rfl⟩ := Prod.mk.inj (Option.some.inj filled)
        obtain rfl : m' = m := Navigation.rendered.inj answer
        exact ⟨v, html, w₀, w₁, viewed, purged, rfl⟩

/-- When a router that does not cache has filled its container, everything is
    gone from the elements that were nested in the container after the view was
    rendered, at any depth: what is found there is newer than that.  On every
    other element the component stays mounted, unless a cleanup stops it. -/
theorem navigation_clears_nested {p : Program P μ} {nesting : Nat} {document : Document}
    {w w' : World P μ} (reached : Path (Client.new document) w.client) {id path : String}
    {m : RouteMatch} {r : Router P.View} (router : w.client.routers.get? id = some r)
    (uncached : r.settings.cache = false)
    (h : (p.invoke nesting).navigate id path w = some (.ok (.rendered m), w')) :
    ∃ v html w₀, (p.invoke nesting).view v m.params
        { w with client := (w.client.findRoute id path).2.modifyDocument (·.visit path) }
          = some (html, w₀) ∧
      (∀ e, w₀.client.document.Within e r.settings.container →
        Cleared e w₀.client w'.client ∧
          (w'.client.instances.length = w₀.client.instances.length →
            w'.client.isMounted e = false) ∧
          (w'.client.nextRecord = w₀.client.nextRecord →
            w'.client.nextListener = w₀.client.nextListener → w'.client.stateOf e = {})) ∧
      ((∀ k, ((p.invoke nesting).cleanup k).Moves SameTable) →
        ∀ e, ¬ w₀.client.document.Within e r.settings.container →
          w'.client.mounted.get? e = w₀.client.mounted.get? e) := by
  have callbacks := (retires_regime.moves_invoke p.sends_all (fun _ _ _ _ _ _ => trivial)
    nesting).toMove
  have accounts := balanced.moves_invoke p nesting
  obtain ⟨v, html, w₀, w₁, viewed, purged, rfl⟩ := navigate_eq_some router uncached h
  have visited : Path w.client ((w.client.findRoute id path).2.modifyDocument (·.visit path)) :=
    .change (.change (.refl _) (.findRoute w.client id path)) (.modifyDocument _ _)
  have way := reached.trans (visited.trans (callbacks.view _ _ _ _ _ viewed).path)
  have moved : Path (Client.new document) (w₀.client.moveRouter id path m.params) :=
    .change way (.moveRouter w₀.client id path m.params)
  have wired := moved.wired (wired_new document)
  obtain ⟨purges, cleared⟩ := cleared_of_purge callbacks accounts
    (w := { w₀ with client := w₀.client.moveRouter id path m.params }) wired moved.numbered purged
  have later := moved.trans purges
  refine ⟨v, html, w₀, viewed, fun e within => ?_, fun quietly e elsewhere => ?_⟩
  · have gone := cleared e within
    have gone : Cleared e w₀.client ((w₁.client.modifyDocument
        (·.setHtml r.settings.container html)).modifyDocument
          (·.execute r.settings.container)) :=
      ⟨gone.stopped, gone.mounted, gone.record, gone.listeners, gone.settled⟩
    have filled : Path (Client.new document) ((w₁.client.modifyDocument
        (·.setHtml r.settings.container html)).modifyDocument
          (·.execute r.settings.container)) :=
      .change (.change later (.modifyDocument _ _)) (.modifyDocument _ _)
    exact ⟨gone, gone.not_mounted (filled.wired (wired_new document)),
      gone.stateOf (filled.wired (wired_new document)) filled.numbered⟩
  · have table := mounted_purgeAll quietly callbacks
      (w := { w₀ with client := w₀.client.moveRouter id path m.params }) wired purged e
    have unlisted : e ∉ w₀.client.document.descendants r.settings.container :=
      fun listed => elsewhere (Document.mem_descendants.1 listed)
    exact table.trans (if_neg unlisted)

/-! ### An element that was dropped -/

/-- A body is given by whether it is that of the outer component, a view by
    whether it is that of the first page. -/
abbrev paged : Callbacks where
  Body := Bool
  Effect := Unit
  Cleanup := Unit
  Listener := Unit
  View := Bool

/-- An outer component that nests an element until the memory says otherwise, and
    an inner one with an effect. -/
def pagedProgram : Program paged Bool where
  render _ outer := do
    if outer then
      let emptied ← Routine.look id
      return .ok (if emptied then "" else "<i id=\"x\"></i>")
    else
      let _ ← Routine.request (.useEffect false (some .unit) ())
      return .ok "inner"
  effect _ := return some ()
  cleanup _ := return ()
  listener _ := return ()
  view first _ := return (if first then "<div id=\"o\"></div>" else "other")

/-- Shows the first page, mounts a component on it and another one inside. -/
def showFirstPage : Routine paged Bool Unit := do
  Routine.request (.createRouter { container := "app" }
    [⟨.parse "/", true⟩, ⟨.parse "/b", false⟩])
  let _ ← Routine.request (.navigate "main" "/")
  let _ ← Routine.request (.mount "o" true)
  let _ ← Routine.request (.mount "x" false)
  return ()

/-- Renders the outer component again, which drops the element inside. -/
def emptyPage : Routine paged Bool Unit := do
  Routine.change fun _ => true
  Routine.request (.notify "o")

def blankPage : World paged Bool := ⟨Client.new (Document.ofElements [("app", "")]), false⟩

def pageShown : World paged Bool :=
  ((pagedProgram.run 5 showFirstPage blankPage).getD ((), blankPage)).2

def pageEmptied : World paged Bool :=
  ((pagedProgram.run 5 emptyPage pageShown).getD ((), pageShown)).2

def pageLeft : Except Fault Navigation × World paged Bool :=
  ((pagedProgram.invoke 5).navigate "main" "/b" pageEmptied).getD (.ok .notFound, pageEmptied)

theorem run_showFirstPage :
    pagedProgram.run 5 showFirstPage blankPage = some ((), pageShown) := by
  have answers : (pagedProgram.run 5 showFirstPage blankPage).isSome := by decide +kernel
  exact (Option.getD_of_ne_none (Option.isSome_iff_ne_none.1 answers) _).symm

theorem run_emptyPage : pagedProgram.run 5 emptyPage pageShown = some ((), pageEmptied) := by
  have answers : (pagedProgram.run 5 emptyPage pageShown).isSome := by decide +kernel
  exact (Option.getD_of_ne_none (Option.isSome_iff_ne_none.1 answers) _).symm

def secondPage : RouteMatch := { index := 1, pattern := "/b", params := ∅, score := 2 }

theorem navigate_secondPage : (pagedProgram.invoke 5).navigate "main" "/b" pageEmptied
    = some (.ok (.rendered secondPage), pageLeft.2) := by
  have answers : ((pagedProgram.invoke 5).navigate "main" "/b" pageEmptied).isSome := by
    decide +kernel
  have rendered : pageLeft.1 = .ok (.rendered secondPage) := eq_ok_of_toOption (by decide +kernel)
  rw [← rendered]
  exact (Option.getD_of_ne_none (Option.isSome_iff_ne_none.1 answers) _).symm

theorem path_pageEmptied :
    Path (Client.new (Document.ofElements [("app", "")])) pageEmptied.client :=
  (Path.of_run run_showFirstPage).trans (Path.of_run run_emptyPage)

/-- The outer component is on an element of the container, and it is stopped. -/
theorem page_cleared :
    Path (Client.new (Document.ofElements [("app", "")])) pageEmptied.client ∧
      (pagedProgram.invoke 5).navigate "main" "/b" pageEmptied
        = some (.ok (.rendered secondPage), pageLeft.2) ∧
      pageEmptied.client.mounted.get? "o" = some 0 ∧ Stopped pageLeft.2.client 0 ∧
      ∃ r, pageEmptied.client.routers.get? "main" = some r ∧ r.settings.cache = false := by
  have known : (pageEmptied.client.routers.get? "main").any
      (fun r => !r.settings.cache && r.settings.container == "app") = true := by
    decide +kernel
  have outer : pageEmptied.client.mounted.get? "o" = some 0 := by decide +kernel
  cases router : pageEmptied.client.routers.get? "main" with
  | none =>
    rw [router] at known
    cases known
  | some r =>
    rw [router] at known
    obtain ⟨uncached, container⟩ : r.settings.cache = false ∧ r.settings.container = "app" := by
      simpa using known
    obtain ⟨v, html, w₀, viewed, cleared, _⟩ :=
      navigation_clears_nested path_pageEmptied router uncached navigate_secondPage
    refine ⟨path_pageEmptied, navigate_secondPage, outer, ?_, r, rfl, uncached⟩
    -- views change nothing
    obtain rfl : _ = w₀ := congrArg Prod.snd (Option.some.inj viewed)
    obtain ⟨mounted, document⟩ :
        (pageEmptied.client.findRoute "main" "/b").2.mounted = pageEmptied.client.mounted ∧
          (pageEmptied.client.findRoute "main" "/b").2.document = pageEmptied.client.document := by
      simp [Client.findRoute, router]
    have within : ((pageEmptied.client.findRoute "main" "/b").2.document.visit "/b").Within "o"
        r.settings.container := by
      rw [document, container]
      exact Document.isNestedIn_iff.1 (by decide +kernel)
    obtain ⟨gone, _⟩ := cleared "o" within
    refine gone.stopped 0 ?_
    show (pageEmptied.client.findRoute "main" "/b").2.mounted.get? "o" = some 0
    rw [mounted]
    exact outer

/-- A component on an element that was dropped outlives the navigation: it is
    still mounted, and its cleanup is still due. -/
theorem dropped_element_stays_mounted :
    pagedProgram.run 5 showFirstPage blankPage = some ((), pageShown) ∧
      pagedProgram.run 5 emptyPage pageShown = some ((), pageEmptied) ∧
      (pagedProgram.invoke 5).navigate "main" "/b" pageEmptied
        = some (.ok (.rendered secondPage), pageLeft.2) ∧
      ¬ ∀ e n, pageShown.client.document.Within e "app" →
        pageShown.client.mounted.get? e = some n →
        Stopped pageLeft.2.client n ∧ pageLeft.2.client.isMounted e = false ∧
          (pageLeft.2.client.recordOf e).cleanups = [] := by
  refine ⟨run_showFirstPage, run_emptyPage, navigate_secondPage, fun claim => ?_⟩
  have within : pageShown.client.document.Within "x" "app" :=
    Document.isNestedIn_iff.1 (by decide +kernel)
  obtain ⟨_, gone, _⟩ := claim "x" 1 within (by decide +kernel)
  have still : pageLeft.2.client.isMounted "x" = true := by decide +kernel
  rw [still] at gone
  cases gone

end PageTree.Live
