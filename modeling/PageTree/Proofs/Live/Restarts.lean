/-
  PageTree/Proofs/Live/Restarts.lean
  ==================================
  **Starting over.**

  A `reset` stops the instances in the table and empties every table.  Nothing is
  left of what was there before only if whoever is alive is in the table, which
  holds as long as cleanups ask for nothing: a cleanup that runs during a mount
  might otherwise mount something on the very element that is being taken.  A
  pace is what happens to mounted components between two moments at which
  callbacks may look.

    * `Pace.listed`: paces keep whoever is alive in the table.
    * `reset_starts_over`: every run is a tour of paces, and a `reset` on a tour
      leaves empty tables, runs each cleanup that was due once, and makes every
      handle that was given out before it useless.
-/
import PageTree.Proofs.Live.Cleanups
import PageTree.Proofs.Live.Placement
import PageTree.Proofs.Live.Schedules
import PageTree.Proofs.Live.Setters

namespace PageTree.Live

variable {P : Callbacks} {μ α : Type}

/-! ### Whoever is alive is in the table -/

/-- Whoever is alive is in the table under its element, unless the client is
    gone. -/
structure Listed (c : Client P) : Prop extends Wired c where
  inTable : c.released = false → ∀ n i, Alive c n i → c.mounted.get? i.element = some n

theorem listed_new (document : Document) : Listed (Client.new document : Client P) := by
  refine ⟨wired_new document, ?_⟩
  rintro _ n i ⟨found, _⟩
  cases found

/-- A client that is gone does not come back. -/
theorem Path.released {c c' : Client P} (way : Path c c') (there : c'.released = false) :
    c.released = false := by
  induction way with
  | refl => exact there
  | change _ step ih => exact ih (step.spares.released ▸ there)
  | beginPass _ id ih => exact ih there
  | endPass _ previous ih => exact ih there
  | take _ step ih => exact ih (step.released _ ▸ there)
  | note _ e ih => exact ih there
  | settle _ ih =>
    unfold Client.settle at there
    split at there
    · cases there
    · exact ih there

/-! ### Paces -/

/-- What happens to mounted components between two moments at which callbacks may
    look. -/
inductive Pace : Client P → Client P → Prop
  | quiet {c c'} (way : Path c c') (mounted : c'.mounted = c.mounted)
      (alive : ∀ n i', Alive c' n i' → ∃ i, Alive c n i ∧ i.element = i'.element) : Pace c c'
  | enter {c : Client P} {id} (body) (absent : c.mounted.get? id = none) :
      Pace c (c.addInstance id body).2
  | stop (c n i) : Pace c (c.detach n i).2
  | displace {c : Client P} {id n} (stored : c.mounted.get? id = some n) (i) :
      Pace c ((c.takeMounted id).2.detach n i).2
  | clear (c) : Pace c c.clear.2
  | settle (c) : Pace c c.settle

theorem Pace.path {c c' : Client P} (h : Pace c c') : Path c c' := by
  cases h with
  | quiet way => exact way
  | enter body => exact .change (.refl c) (.addInstance c _ body)
  | stop n i =>
    have stopped := Path.take (.refl c) (.detach n i)
    exact stopped
  | @displace id n _ i =>
    have taken := Path.take (.change (.refl c) (.takeMounted c id)) (.detach n i)
    exact taken
  | clear =>
    have cleared := Path.take (.refl c) .clear
    exact cleared
  | settle => exact .settle (.refl c)

theorem Pace.listed {c c' : Client P} (h : Pace c c') (listed : Listed c) : Listed c' := by
  refine ⟨h.path.wired listed.toWired, fun there => ?_⟩
  have inTable := listed.inTable (h.path.released there)
  cases h with
  | quiet _ mounted alive =>
    intro n i' alive'
    obtain ⟨i, before, element⟩ := alive n i' alive'
    rw [mounted, ← element]
    exact inTable n i before
  | @enter id body absent =>
    rintro n i ⟨found, mounted⟩
    rw [instance?_addInstance] at found
    rw [mounted_addInstance]
    split at found
    · next new =>
      obtain rfl := Option.some.inj found
      rw [if_pos rfl, new]
    · have stored := inTable n i ⟨found, mounted⟩
      rw [if_neg, stored]
      rintro rfl
      rw [absent] at stored
      cases stored
  | stop n i =>
    intro m j alive
    obtain ⟨other, before⟩ := alive_detach alive
    exact get?_mounted_detach listed.mountedKeys i (inTable m j before) other
  | @displace id n stored i =>
    intro m j alive
    obtain ⟨other, before⟩ := alive_detach alive
    exact get?_mounted_displace listed.mountedKeys i stored (inTable m j before) other
  | clear =>
    intro n i alive
    exact absurd alive (stopped_of_clear inTable)
  | settle =>
    have kept : c.settle = c := by
      unfold Client.settle at there ⊢
      split at there
      · cases there
      · next staying => rw [if_neg staying]
    rw [kept]
    exact inTable

/-! ### Tours -/

/-- One pace after another. -/
abbrev Tour : Client P → Client P → Prop := Relation.ReflTransGen Pace

theorem Tour.listed {c c' : Client P} (h : Tour c c') (listed : Listed c) : Listed c' := by
  induction h with
  | refl => exact listed
  | tail _ step ih => exact step.listed ih

/-- A stretch of a run that is a tour if it begins with whoever is alive in the
    table. -/
structure Paces (c c' : Client P) : Prop where
  path : Path c c'
  tour : Listed c → Tour c c'

theorem Pace.paces {c c' : Client P} (h : Pace c c') : Paces c c' := ⟨h.path, fun _ => .single h⟩

theorem Paces.of_instances {c c' : Client P} (way : Path c c')
    (instances : c'.instances = c.instances) (mounted : c'.mounted = c.mounted) : Paces c c' := by
  refine (Pace.quiet way mounted ?_).paces
  rintro n i ⟨found, set⟩
  rw [Client.instance?, instances] at found
  exact ⟨i, ⟨found, set⟩, rfl⟩

theorem alive_of_modify {c : Client P} {n m : Nat} {f : Instance P → Instance P}
    (keeps : ∀ i, (f i).element = i.element ∧ (f i).mounted = i.mounted) {i' : Instance P}
    (alive : Alive (c.modifyInstance n f) m i') : ∃ i, Alive c m i ∧ i.element = i'.element := by
  obtain ⟨found, set⟩ := alive
  rw [instance?_modify] at found
  split at found
  · obtain ⟨j, before, rfl⟩ := Option.map_eq_some_iff.1 found
    obtain ⟨element, flag⟩ := keeps j
    exact ⟨j, ⟨before, flag ▸ set⟩, element.symm⟩
  · exact ⟨i', ⟨found, set⟩, rfl⟩

theorem Paces.of_modify {c : Client P} {n : Nat} {f : Instance P → Instance P}
    (way : Path c (c.modifyInstance n f))
    (keeps : ∀ i, (f i).element = i.element ∧ (f i).mounted = i.mounted) :
    Paces c (c.modifyInstance n f) :=
  (Pace.quiet way rfl fun _ _ => alive_of_modify keeps).paces

theorem paces_composes : Composes (Paces (P := P)) where
  refl c := ⟨.refl c, fun _ => .refl⟩
  trans := by
    intro c c' c'' first second
    refine ⟨first.path.trans second.path, fun listed => ?_⟩
    have before := first.tour listed
    exact before.trans (second.tour (before.listed listed))

theorem paces_turn {c c' : Client P} (h : Turn c c') : Paces c c' := by
  have way : Path c c' := .change (.refl c) h.change
  rcases h.aside with aside | ⟨n, rfl⟩ | ⟨id, l, rfl⟩
  · exact .of_instances way aside.instances aside.mounted
  · exact .of_modify way fun _ => ⟨rfl, rfl⟩
  · exact .of_instances way rfl rfl

theorem paces_beginRender (c : Client P) (n : Nat) : Paces c (c.beginRender n).2 := by
  have way : Path c (c.beginRender n).2 := .change (.refl c) (.beginRender c n)
  rcases beginRender_eq c n with same | begun
  · rw [same]
    exact paces_composes.refl c
  · rw [begun] at way ⊢
    exact .of_modify way fun _ => ⟨rfl, rfl⟩

theorem paces_endRender (c : Client P) (n : Nat) : Paces c (c.endRender n) :=
  .of_modify (.change (.refl c) (.endRender c n)) fun _ => ⟨rfl, rfl⟩

theorem paces_endSubscription (c : Client P) (n : Nat) : Paces c (c.endSubscription n).2 := by
  have way : Path c (c.endSubscription n).2 := .change (.refl c) (.endSubscription c n)
  rcases endSubscription_eq c n with same | ⟨i, l, _, _, ended⟩
  · rw [same]
    exact paces_composes.refl c
  · refine (Pace.quiet way ?_ fun m i' alive => ?_).paces
    · rw [ended]
      rfl
    · rw [ended] at alive
      exact alive_of_modify (c := (c.unsubscribe i.element l).2)
        (f := fun i => { i with listener := none }) (fun _ => ⟨rfl, rfl⟩) alive

theorem paces_note (c : Client P) (d : Due P) : Paces c (c.note (.undone d)) :=
  .of_instances (.note (.refl c) _) rfl rfl

theorem paces_forget (c : Client P) (id : String) : Paces c (c.forget id).2 := by
  have way := Path.take (.refl c) (.forget id)
  exact .of_instances way rfl rfl

/-! ### Services -/

section

variable {calls : Calls P μ} (callbacks : calls.Keep (fun c c' => c' = c) Paces)

include callbacks

theorem paces_undo (ds : List (Due P)) : (ds.forM calls.undo).Moves Paces :=
  paces_composes.moves_forM_undo paces_note callbacks.cleanup ds

theorem paces_undoAll {take : Client P → List (Due P) × Client P}
    (taken : ∀ c, Paces c (take c).2) : (calls.undoAll take).Moves Paces :=
  paces_composes.moves_undoAll taken paces_note callbacks.cleanup

theorem paces_runPass (id : String) (body : P.Body) : (calls.runPass id body).Moves Paces := by
  apply paces_composes.moves_runPass
  · intro c id
    exact .of_instances (.beginPass (.refl c) id) rfl rfl
  · intro c previous
    exact .of_instances (.endPass (.refl c) previous) rfl rfl
  · exact callbacks.render

theorem paces_runEffect (e : PendingEffect P) : (calls.runEffect e).Moves Paces := by
  refine paces_composes.moves_runEffect (fun e => ?_) callbacks.effect (fun e k => ?_) e
  · refine paces_undoAll callbacks fun c => ?_
    have way := Path.take (.refl c) (.takeCleanup e)
    exact .of_instances way rfl rfl
  · refine paces_undoAll callbacks fun c => ?_
    have way : Path c (c.settleEffect e k).2 := .take (.refl c) (.settleEffect e k)
    refine .of_instances way ?_ ?_
    · unfold Client.settleEffect
      split <;> rfl
    · unfold Client.settleEffect
      split <;> rfl

theorem paces_cleanUp (id : String) : (calls.cleanUp id).Moves Paces :=
  paces_undoAll callbacks fun c => paces_forget c id

theorem paces_renderInstance (n : Nat) : (calls.renderInstance n).Moves Paces :=
  paces_composes.moves_renderInstance paces_turn paces_beginRender paces_endRender
    (paces_runPass callbacks) (paces_runEffect callbacks) n

theorem paces_tearDown (n : Nat) : (calls.tearDown n).Moves Paces :=
  paces_composes.moves_tearDown
    (fun n i => paces_undoAll callbacks fun c => (Pace.stop c n i).paces) paces_endSubscription
    (paces_cleanUp callbacks) n

/-- What is left of stopping an instance after it has been taken out. -/
theorem paces_after_detach {n : Nat} {i : Instance P} {w w' : World P μ}
    (found : w.client.instance? n = some i) (h : calls.tearDown n w = some ((), w')) :
    Paces (w.client.detach n i).2 w'.client := by
  unfold Calls.tearDown at h
  rw [Act.look_bind, found] at h
  obtain ⟨_, w₁, undone, h⟩ := Act.bind_eq_some.1 h
  have during := paces_undo callbacks _ _ _ _ undone
  rw [Act.through_bind] at h
  have left := paces_composes.trans during (paces_endSubscription w₁.client n)
  split at h
  · exact paces_composes.trans left (paces_cleanUp callbacks _ _ _ _ h)
  · obtain rfl : _ = w' := congrArg Prod.snd (Option.some.inj h)
    exact left

theorem paces_unmountElement {id : String} {w w' : World P μ}
    (h : calls.unmountElement id w = some ((), w')) : Paces w.client w'.client := by
  have taken : Path w.client (w.client.takeMounted id).2 :=
    .change (.refl _) (.takeMounted w.client id)
  unfold Calls.unmountElement at h
  rw [Act.through_bind] at h
  cases stored : w.client.mounted.get? id with
  | none =>
    have absent : (w.client.takeMounted id).1 = none := stored
    rw [absent] at h
    obtain rfl : _ = w' := congrArg Prod.snd (Option.some.inj h)
    have same : (w.client.takeMounted id).2.mounted = w.client.mounted :=
      congrArg OrderedMap.mk (OrderedMap.get?_eq_none_absent stored).2.2.2
    exact .of_instances taken rfl same
  | some n =>
    have present : (w.client.takeMounted id).1 = some n := stored
    rw [present] at h
    have torn : calls.tearDown n { w with client := (w.client.takeMounted id).2 }
        = some ((), w') := h
    cases found : w.client.instance? n with
    | none =>
      have way := (paces_tearDown callbacks n _ _ _ torn).path
      refine ⟨taken.trans way, fun listed => ?_⟩
      obtain ⟨i, there, _⟩ := listed.stored id n stored
      cases found.symm.trans there
    | some i =>
      have rest := paces_after_detach callbacks
        (w := { w with client := (w.client.takeMounted id).2 }) found torn
      exact paces_composes.trans (Pace.displace stored i).paces rest

/-- Cleanups that ask for nothing leave an element free that was cleared. -/
theorem absent_of_unmountElement {id : String} {w w' : World P μ} (wired : Wired w.client)
    (h : calls.unmountElement id w = some ((), w')) : w'.client.mounted.get? id = none := by
  have quietly (k : P.Cleanup) : (calls.cleanup k).Moves SameTable := fun w a w' h =>
    congrArg Client.mounted (callbacks.cleanups k w a w' h)
  rw [mounted_unmountElement quietly wired h]
  exact OrderedMap.get?_erase_self id wired.mountedKeys

theorem paces_mount (id : String) (body : P.Body) : (calls.mount id body).Moves Paces := by
  intro w a w' h
  unfold Calls.mount at h
  rw [Act.look_bind] at h
  split at h
  · obtain rfl : w = w' := congrArg Prod.snd (Option.some.inj h)
    exact paces_composes.refl _
  · obtain ⟨_, w₁, vacated, h⟩ := Act.bind_eq_some.1 h
    have vacates := paces_unmountElement callbacks vacated
    rw [Act.through_bind] at h
    have enters : Paces w.client (w₁.client.addInstance id body).2 := by
      constructor
      · exact .change vacates.path (.addInstance w₁.client id body)
      · intro listed
        have absent := absent_of_unmountElement callbacks listed.toWired vacated
        exact (vacates.tour listed).tail (.enter body absent)
    obtain ⟨result, w₂, rendered, h⟩ := Act.bind_eq_some.1 h
    have shown := paces_composes.trans enters (paces_renderInstance callbacks _ _ _ _ rendered)
    cases result with
    | ok _ =>
      obtain rfl : w₂ = w' := congrArg Prod.snd (Option.some.inj h)
      exact shown
    | error e =>
      obtain ⟨_, w₃, torn, h⟩ := Act.bind_eq_some.1 h
      obtain rfl : w₃ = w' := congrArg Prod.snd (Option.some.inj h)
      exact paces_composes.trans shown (paces_tearDown callbacks _ _ _ _ torn)

end

theorem paces_regime : Regime (P := P) (fun _ => True) (fun c c' => c' = c) Paces := by
  exact
    { paces_composes with
      turn := paces_turn
      abandon := fun _ c => .of_instances (.change (.refl c) (.abandon c)) rfl rfl
      unsubscribe := fun _ c => .of_instances (.change (.refl c) (.unsubscribe c _ _)) rfl rfl
      cleanUp := fun _ callbacks => paces_cleanUp callbacks _
      runPass := paces_runPass
      runEffect := paces_runEffect
      reset := fun callbacks => paces_undoAll callbacks fun c => (Pace.clear c).paces
      renderInstance := paces_renderInstance
      tearDown := paces_tearDown
      mount := paces_mount
      purge := fun callbacks id => paces_composes.moves_purge
        (fun _ _ _ _ h => paces_unmountElement callbacks h) (paces_cleanUp callbacks) id }

theorem cleanup_of_silent {p : Program P μ} (silent : ∀ k, (p.cleanup k).Silent) (depth : Nat)
    (k : P.Cleanup) : ((p.invoke depth).cleanup k).Moves fun c c' => c' = c := by
  cases depth with
  | zero => exact .of_failure
  | succ depth =>
    intro w a w' h
    obtain ⟨_, memory, answered⟩ := (silent k).run ((p.invoke depth).serve none) w
    obtain ⟨_, rfl⟩ := Prod.mk.inj (Option.some.inj (answered.symm.trans h))
    rfl

/-! ### After a reset -/

/-- Every table is empty, no component is current, and the document is the same. -/
structure Emptied (c e : Client P) : Prop where
  records : e.records = ∅
  pending : e.pending = []
  listeners : e.listeners = ∅
  contexts : e.contexts = ∅
  routers : e.routers = ∅
  mounted : e.mounted = ∅
  installed : e.installed = false
  current : e.current = none
  document : e.document = c.document

/-- Handles are without effect as long as nothing has been made under their names.
    Handles to the first instances are so for good. -/
structure Lapsed (instances : Nat) (w : World P μ) : Prop where
  setter : ∀ (s : Setter), w.client.stateSlot? s = none →
    ∀ (calls : Calls P μ) (scope : Option String) (v : Value) (f : Value → Value),
      calls.serve scope (.write s v) w = some (false, w) ∧
        (Routine.update s f).run (calls.serve scope) w = some (false, w)
  context : ∀ (h : ContextHandle), w.client.contexts.get? h.id = none →
    ∀ (calls : Calls P μ) (scope : Option String) (v : Value) (f : Value → Value),
      calls.serve scope (.readContext h) w = some (.error (.noContext h.id), w) ∧
        calls.serve scope (.writeContext h v) w = some (.error (.noContext h.id), w) ∧
        (Routine.updateContext h f).run (calls.serve scope) w
          = some (.error (.noContext h.id), w)
  router : ∀ (id path : String), w.client.routers.get? id = none →
    ∀ (calls : Calls P μ) (scope : Option String),
      calls.serve scope (.navigate id path) w = some (.error (.noRouter id), w)
  mounted : ∀ n < instances, ∀ (calls : Calls P μ) (scope : Option String),
    calls.serve scope (.unmount n) w = some ((), w)

theorem unmount_of_stopped {calls : Calls P μ} {n : Nat} {w : World P μ}
    (lapsed : w.client.released = true ∨ Stopped w.client n) :
    calls.unmount n w = some ((), w) := by
  have idle : (!w.client.released && (w.client.instance? n).any (·.mounted)) = false := by
    rcases lapsed with gone | ⟨i, found, cleared⟩
    · rw [gone]
      rfl
    · rw [found, Option.any_some, cleared, Bool.and_false]
  unfold Calls.unmount
  rw [Act.look_bind, idle]
  rfl

theorem lapsed_of_stopped {instances : Nat} {w : World P μ}
    (stopped : w.client.released = true ∨ ∀ n < instances, Stopped w.client n) :
    Lapsed instances w where
  setter s absent calls scope v f := by
    have unread : w.client.read s = none := by rw [Client.read, absent, Option.bind_none]
    refine ⟨write_of_store_none (store_of_unchanged ?_), ?_⟩
    · intro slot kept
      cases absent.symm.trans kept
    · rw [run_update, unread]
  context h absent calls scope v f := by
    have value : w.client.contextValue h.id h.kind = .error (.noContext h.id) := by
      rw [Client.contextValue, absent]
    have read : calls.serve scope (.readContext h) w = some (.error (.noContext h.id), w) :=
      congrArg (fun r => some (r, w)) value
    have written : w.client.writeContext h v = (.error (.noContext h.id), w.client) := by
      rw [Client.writeContext, value]
    refine ⟨read, ?_, ?_⟩
    · show calls.writeContext h v w = _
      unfold Calls.writeContext
      rw [Act.through_bind, written]
      rfl
    · exact bind_of_eq_some read
  router id path absent calls scope := by
    have lost : w.client.findRoute id path = (none, w.client) := by
      rw [Client.findRoute, absent]
    show calls.navigate id path w = _
    unfold Calls.navigate
    rw [Act.through_bind, lost]
    rfl
  mounted n lt calls scope := unmount_of_stopped (stopped.imp_right fun all => all n lt)

/-- Of the instances made before a `reset` none is alive after it. -/
theorem Listed.stopped_of_clear {c : Client P} (listed : Listed c) :
    c.clear.2.released = true ∨ ∀ n < c.instances.length, Stopped c.clear.2 n := by
  by_cases gone : c.released = true
  · exact .inl gone
  · right
    intro n lt
    have cleared : Path c c.clear.2 := .take (.refl c) .clear
    obtain ⟨i, found, _⟩ := cleared.ages n _ (List.getElem?_eq_getElem lt)
    refine ⟨i, found, ?_⟩
    by_contra set
    exact PageTree.Live.stopped_of_clear (listed.inTable (by simpa using gone))
      ⟨found, by simpa using set⟩

/-- **A reset starts over.**  As long as cleanups ask for nothing, every run is a tour,
    and so is what callbacks do on a tour.  At any moment of a tour a `reset` leaves
    every table empty and the document as it is, and runs the cleanups that are due,
    each once.  Whatever comes then, a handle that was given out before is without
    effect as long as nothing has been made under its name, and the handle of an
    instance for good. -/
theorem reset_starts_over {p : Program P μ} (silent : ∀ k, (p.cleanup k).Silent)
    (document : Document) :
    (∀ (depth : Nat) {α : Type} (m : Routine P μ α) (memory : μ) (a : α) (w : World P μ),
        p.run depth m ⟨Client.new document, memory⟩ = some (a, w) →
        Tour (Client.new document) w.client) ∧
      (∀ depth, (p.invoke depth).Keep (fun c c' => c' = c) Paces) ∧
      ∀ c : Client P, Tour (Client.new document) c →
        ∀ (depth : Nat) (memory : μ), ∃ (e : Client P) (memory' : μ),
          (∀ scope, (p.invoke (depth + 1)).serve scope .reset ⟨c, memory⟩
            = some ((), ⟨e, memory'⟩)) ∧
          (c.abandoned = false → p.run (depth + 1) (Routine.request .reset) ⟨c, memory⟩
            = some ((), ⟨e, memory'⟩)) ∧
          Emptied c e ∧
          p.undoAlone (c.outstanding.map (·.cleanup)) memory = some ((), memory') ∧
          e.history = (c.outstanding.map Event.undone).reverse ++ c.history ∧
          e.outstanding = [] ∧
          ∀ w : World P μ, Path e w.client → Lapsed c.instances.length w := by
  have cleanups := cleanup_of_silent silent
  refine ⟨?_, ?_, ?_⟩
  · intro depth α m memory a w ran
    have paces := paces_regime.run (fun c => (Pace.settle c).paces) p.sends_all cleanups
      m.sends_all ran
    exact paces.tour (listed_new document)
  · exact paces_regime.moves_invoke p.sends_all cleanups
  · intro c tour depth memory
    have listed := tour.listed (listed_new document)
    obtain ⟨memory', alone, undone⟩ := undo_alone silent depth c.outstanding c.clear.2 memory
    let e : Client P :=
      { c.clear.2 with history := (c.outstanding.map Event.undone).reverse ++ c.history }
    have served (scope : Option String) :
        (p.invoke (depth + 1)).serve scope .reset ⟨c, memory⟩ = some ((), ⟨e, memory'⟩) := undone
    refine ⟨e, memory', served, ?_, ⟨rfl, rfl, rfl, rfl, rfl, rfl, rfl, rfl, rfl⟩, alone, rfl, rfl,
      ?_⟩
    · intro staying
      exact bind_of_eq_some (serveOutside_of_served (served none) staying)
    · intro w way
      refine lapsed_of_stopped ?_
      rcases listed.stopped_of_clear with gone | stopped
      · left
        by_contra there
        have back : c.clear.2.released = false := way.released (by simpa using there)
        cases gone.symm.trans back
      · right
        intro n lt
        have stopped' : Stopped e n := stopped n lt
        exact way.ages.stopped stopped'

/-! ### A component that is undone -/

abbrev tally : Callbacks where
  Body := Unit
  Effect := Unit
  Cleanup := Unit
  Listener := Unit
  View := Unit

/-- A component with a state and an effect.  In memory is how often the effect has
    been undone. -/
def tallyProgram : Program tally Nat where
  render _ _ := do
    let _ ← Routine.request (.useState false (.int 0))
    let _ ← Routine.request (.useEffect false (some .unit) ())
    return .ok "up"
  effect _ := return some ()
  cleanup _ := Routine.change (· + 1)
  listener _ := return ()
  view _ _ := return ""

/-- Mounts the component and makes a context. -/
def tallySetup : Routine tally Nat Unit := do
  let _ ← Routine.request (.mount "a" ())
  let _ ← Routine.request (.createContext "theme" (.int 1))
  return ()

theorem tally_silent (k : Unit) : (tallyProgram.cleanup k).Silent := fun _ => trivial

/-- After a `reset` the effect has been undone once, and there is no context any
    more.  The handle of the component does nothing. -/
theorem tally_starts_over :
    ∃ (c e : Client tally),
      tallyProgram.run 3 tallySetup ⟨Client.new (Document.ofElements [("a", "")]), 0⟩
        = some ((), ⟨c, 0⟩) ∧
      (c.isMounted "a" && c.contexts.contains "theme") = true ∧
      tallyProgram.run 3 (Routine.request .reset) ⟨c, 0⟩ = some ((), ⟨e, 1⟩) ∧ Emptied c e ∧
      ∀ w : World tally Nat, Path e w.client → Lapsed 1 w := by
  have law := reset_starts_over (p := tallyProgram) tally_silent
    (Document.ofElements [("a", "")])
  have answers : (tallyProgram.run 3 tallySetup
      ⟨Client.new (Document.ofElements [("a", "")]), 0⟩).isSome = true := by decide +kernel
  obtain ⟨⟨⟨⟩, ⟨c, memory⟩⟩, ran⟩ := Option.isSome_iff_exists.1 answers
  have made : (tallyProgram.run 3 tallySetup ⟨Client.new (Document.ofElements [("a", "")]), 0⟩).map
      (fun r => (r.2.memory, r.2.client.isMounted "a" && r.2.client.contexts.contains "theme",
        r.2.client.abandoned, r.2.client.instances.length,
        r.2.client.outstanding.map (·.cleanup))) = some (0, true, false, 1, [()]) := by
    decide +kernel
  rw [ran] at made
  obtain ⟨rfl, there, staying, one, due⟩ : memory = 0 ∧
      (c.isMounted "a" && c.contexts.contains "theme") = true ∧ c.abandoned = false ∧
      c.instances.length = 1 ∧ c.outstanding.map (·.cleanup) = [()] := by
    simpa using made
  obtain ⟨e, memory', _, reset, emptied, alone, _, _, lapsed⟩ :=
    law.2.2 c (law.1 3 tallySetup 0 () _ ran) 2 0
  rw [due] at alone
  obtain rfl : 1 = memory' := congrArg Prod.snd (Option.some.inj alone)
  rw [one] at lapsed
  exact ⟨c, e, ran, there, reset staying, emptied, lapsed⟩

end PageTree.Live
