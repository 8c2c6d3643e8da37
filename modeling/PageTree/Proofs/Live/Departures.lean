/-
  PageTree/Proofs/Live/Departures.lean
  ====================================
  **Components that go and come.**

  When no effect has left anything to undo, a component is torn down in one step,
  and only what is known of its element changes.  So the others answer what they
  answered, and a component that is mounted next finds its element vacant.  If its
  first render fails, it is torn down again and has left nothing behind.

    * `Clears`: what does not change when a component goes.
    * `unmount_served`, `mount_served`: the operations.
-/
import PageTree.Proofs.Live.Operations

namespace PageTree.Live

variable {P : Callbacks} {μ : Type}

/-! ### What a component leaves alone -/

/-- Nothing has changed but what is known of the element, and nobody came. -/
structure Clears (id : String) (c c' : Client P) : Prop where
  alive : ∀ n i, Alive c' n i → Alive c n i
  kept : ∀ n i, Alive c n i → i.element ≠ id → Alive c' n i
  mounted : ∀ other, other ≠ id → c'.mounted.get? other = c.mounted.get? other
  records : ∀ other, other ≠ id → c'.records.get? other = c.records.get? other
  contexts : c'.contexts = c.contexts
  document : c'.document = c.document
  pending : c.pending = [] → c'.pending = []
  listeners : ∀ other, ∀ e ∈ c'.listenersOf other, e ∈ c.listenersOf other
  resting : (∀ n i, c.instance? n = some i → i.rendering = false) →
    ∀ n i, c'.instance? n = some i → i.rendering = false
  plain : PlainRecords c → PlainRecords c'

namespace Clears

variable {c c' c'' : Client P} {id : String}

theorem refl (c : Client P) (id : String) : Clears id c c :=
  ⟨fun _ _ alive => alive, fun _ _ alive _ => alive, fun _ _ => rfl, fun _ _ => rfl, rfl, rfl,
    fun idle => idle, fun _ _ he => he, fun resting => resting, fun plain => plain⟩

theorem trans (h : Clears id c c') (h' : Clears id c' c'') : Clears id c c'' where
  alive n i alive := h.alive n i (h'.alive n i alive)
  kept n i alive other := h'.kept n i (h.kept n i alive other) other
  mounted other ne := (h'.mounted other ne).trans (h.mounted other ne)
  records other ne := (h'.records other ne).trans (h.records other ne)
  contexts := h'.contexts.trans h.contexts
  document := h'.document.trans h.document
  pending idle := h'.pending (h.pending idle)
  listeners other e he := h.listeners other e (h'.listeners other e he)
  resting resting := h'.resting (h.resting resting)
  plain plain := h'.plain (h.plain plain)

theorem takeMounted (nodup : c.mounted.keys.Nodup) (id : String) :
    Clears id c (c.takeMounted id).2 where
  alive _ _ alive := alive
  kept _ _ alive _ := alive
  mounted other ne := by
    rw [Client.takeMounted, get?_erase nodup, if_neg ne.symm]
  records _ _ := rfl
  contexts := rfl
  document := rfl
  pending idle := idle
  listeners _ _ he := he
  resting resting := resting
  plain plain := ⟨plain.keys, plain.plain⟩

theorem detach (nodup : c.mounted.keys.Nodup) {n : Nat} {i : Instance P}
    (found : c.instance? n = some i) : Clears i.element c (c.detach n i).2 := by
  obtain ⟨_, records, _⟩ := detach_eq c n i
  obtain ⟨listeners, _⟩ := listeners_detach c n i
  have rest : (c.detach n i).2.contexts = c.contexts ∧ (c.detach n i).2.document = c.document ∧
      (c.detach n i).2.pending = c.pending := by
    unfold Client.detach
    dsimp only
    split <;> exact ⟨rfl, rfl, rfl⟩
  refine ⟨?_, ?_, ?_, ?_, rest.1, rest.2.1, ?_, ?_, ?_, ?_⟩
  · intro m j alive
    exact (alive_detach alive).2
  · intro m j alive other
    refine ⟨?_, alive.2⟩
    rw [instance?_detach, if_neg, alive.1]
    rintro rfl
    exact other (congrArg Instance.element (Option.some.inj (alive.1.symm.trans found)))
  · intro other ne
    rw [mounted_detach]
    split
    · rw [get?_erase nodup, if_neg ne.symm]
    · rfl
  · intro other ne
    rw [records, OrderedMap.get?_modify, if_neg (by simpa using ne.symm)]
  · intro idle
    rw [rest.2.2, idle]
  · intro other e he
    rwa [Client.listenersOf, listeners] at he
  · intro resting m j hj
    rw [instance?_detach] at hj
    split at hj
    · obtain ⟨j, before, rfl⟩ := Option.map_eq_some_iff.1 hj
      exact resting m j before
    · exact resting m j hj
  · intro plain
    refine ⟨by rw [records, OrderedMap.keys_modify]; exact plain.keys, ?_⟩
    intro other r hr
    rw [records, OrderedMap.get?_modify] at hr
    split at hr
    · obtain ⟨r, before, rfl⟩ := Option.map_eq_some_iff.1 hr
      have was := plain.plain other r before
      exact ⟨by simp [HookRecord.withoutCleanups, Slots.map, was.effects], was.states⟩
    · exact plain.plain other r hr

theorem endSubscription (nodup : c.listeners.keys.Nodup) {n : Nat} {i : Instance P}
    (found : c.instance? n = some i) (stopped : i.mounted = false) :
    Clears i.element c (c.endSubscription n).2 := by
  rcases endSubscription_eq c n with same | ⟨j, l, found', _, ended⟩
  · rw [same]
    exact .refl c _
  obtain rfl : i = j := Option.some.inj (found.symm.trans found')
  rw [ended]
  refine ⟨?_, ?_, fun _ _ => rfl, fun _ _ => rfl, rfl, rfl, fun idle => idle, ?_, ?_,
    fun plain => ⟨plain.keys, plain.plain⟩⟩
  · intro m j alive
    obtain ⟨hj, mounted⟩ := alive
    rw [instance?_modify] at hj
    split at hj
    · next same =>
      obtain ⟨j, before, rfl⟩ := Option.map_eq_some_iff.1 hj
      have before : c.instance? m = some j := before
      rw [← same] at before
      obtain rfl := Option.some.inj (found.symm.trans before)
      rw [stopped] at mounted
      cases mounted
    · exact ⟨hj, mounted⟩
  · intro m j alive _
    refine ⟨?_, alive.2⟩
    rw [instance?_modify, if_neg]
    · exact alive.1
    · rintro rfl
      exact Stopped.not_alive ⟨i, found, stopped⟩ alive
  · intro other e he
    have he : e ∈ (c.unsubscribe i.element l).2.listenersOf other := he
    rw [listenersOf_unsubscribe nodup] at he
    split at he
    · exact List.mem_of_mem_filter he
    · exact he
  · intro resting m j hj
    rw [instance?_modify] at hj
    split at hj
    · obtain ⟨j, before, rfl⟩ := Option.map_eq_some_iff.1 hj
      exact resting m j before
    · exact resting m j hj

theorem forget (nodup : c.listeners.keys.Nodup) (id : String) : Clears id c (c.forget id).2 where
  alive _ _ alive := alive
  kept _ _ alive _ := alive
  mounted _ _ := rfl
  records other ne := OrderedMap.get?_erase_of_ne ne.symm c.records
  contexts := rfl
  document := rfl
  pending idle := by
    simp [Client.forget, Client.discardPending, Client.takePending, idle]
  listeners other e he := by
    have he : e ∈ ((c.listeners.erase id).get? other).getD [] := he
    rw [get?_erase nodup] at he
    split at he
    · cases he
    · exact he
  resting resting := resting
  plain plain := by
    refine ⟨OrderedMap.nodup_keys_erase plain.keys id, ?_⟩
    intro other r hr
    have hr : (c.records.erase id).get? other = some r := hr
    rw [get?_erase plain.keys] at hr
    split at hr
    · cases hr
    · exact plain.plain other r hr

theorem answer {view : String → P.Body → View μ} (h : Clears id c c') {i : Instance P}
    (other : i.element ≠ id) : i.answer view c' = i.answer view c :=
  Instance.answer_congr h.contexts (h.records _ other)

theorem ready (h : Clears id c c') (ready : Ready c) (placed : Placed c')
    (gone : c'.mounted.get? id = none) : Ready c' := by
  refine ⟨placed, h.plain ready.toPlainRecords, h.pending ready.idle, ?_, h.resting ready.resting,
    ?_⟩
  · intro other k l listed
    exact ready.unheard other k l (h.listeners other _ listed)
  · intro other n stored
    have ne : other ≠ id := by
      rintro rfl
      rw [gone] at stored
      cases stored
    rw [h.mounted other ne] at stored
    obtain ⟨i, alive, rfl⟩ := ready.occupied other n stored
    exact ⟨i, h.kept n i alive ne, rfl⟩

end Clears

/-! ### Tearing down -/

/-- The client after an instance was torn down none of whose cleanups is due. -/
def Client.dismiss (c : Client P) (n : Nat) (i : Instance P) : Client P :=
  let ended := (c.detach n i).2.endSubscription n
  if ended.1 then (ended.2.forget i.element).2 else ended.2

theorem HookRecord.Plain.cleanups {r : HookRecord P} (plain : r.Plain) : r.cleanups = [] := by
  simp [HookRecord.cleanups, plain.effects]

theorem mounted_dismiss (c : Client P) (n : Nat) (i : Instance P) :
    (c.dismiss n i).mounted = (c.detach n i).2.mounted := by
  have ended : ((c.detach n i).2.endSubscription n).2.mounted = (c.detach n i).2.mounted := by
    rcases endSubscription_eq (c.detach n i).2 n with same | ⟨_, _, _, _, ended⟩
    · rw [same]
    · rw [ended]
      rfl
  rw [Client.dismiss]
  split
  · exact ended
  · exact ended

theorem instance?_of_detached {c : Client P} {n : Nat} {i : Instance P}
    (found : c.instance? n = some i) :
    (c.detach n i).2.instance? n = some { i with mounted := false } := by
  rw [instance?_detach, if_pos rfl, found]
  rfl

section

variable {c : Client P} {n : Nat} {i : Instance P} (found : c.instance? n = some i)

include found

theorem clears_endSubscription_detach (wired : Wired c) :
    Clears i.element c ((c.detach n i).2.endSubscription n).2 := by
  have detached := Clears.detach wired.mountedKeys found
  have listeners : (c.detach n i).2.listeners.keys.Nodup := by
    rw [(listeners_detach c n i).1]
    exact wired.listenerKeys
  have ended := Clears.endSubscription listeners (instance?_of_detached found) rfl
  exact detached.trans ended

theorem clears_dismiss (wired : Wired c) : Clears i.element c (c.dismiss n i) := by
  have ended := clears_endSubscription_detach found wired
  have keys := ((Shift.detach c n i).trans (.endSubscription _ n)).wired wired
  rw [Client.dismiss]
  split
  · exact ended.trans (.forget keys.listenerKeys i.element)
  · exact ended

theorem tearDown_of_plain (calls : Calls P μ) (wired : Wired c) (plain : PlainRecords c)
    (memory : μ) : calls.tearDown n ⟨c, memory⟩ = some ((), ⟨c.dismiss n i, memory⟩) := by
  let ended := (c.detach n i).2.endSubscription n
  have undone : (calls.undoAll (·.detach n i)) ⟨c, memory⟩
      = some ((), ⟨(c.detach n i).2, memory⟩) := by
    rw [Calls.undoAll_eq, (detach_eq c n i).1, (plain.recordOf i.element).cleanups]
    rfl
  have forgotten : calls.cleanUp i.element ⟨ended.2, memory⟩
      = some ((), ⟨(ended.2.forget i.element).2, memory⟩) := by
    have plain' := (clears_endSubscription_detach found wired).plain plain
    have due : (ended.2.forget i.element).1 = [] := (plain'.recordOf i.element).cleanups
    rw [Calls.cleanUp, Calls.undoAll_eq, due]
    rfl
  unfold Calls.tearDown
  rw [Act.look_bind, found]
  refine Act.bind_eq_some.2 ⟨(), _, undone, ?_⟩
  rw [Act.through_bind, Client.dismiss]
  by_cases last : ended.1 = true
  · rw [if_pos last, if_pos last]
    exact forgotten
  · rw [if_neg last, if_neg last]
    rfl

end

/-- Callbacks that never answer keep to everything. -/
theorem keep_none {K R : Client P → Client P → Prop} :
    (Calls.none : Calls P μ).Keep K R where
  render _ _ := .of_failure
  effect _ := .of_failure
  cleanup _ := .of_failure
  listener _ := .of_failure
  view _ _ := .of_failure
  cleanups _ := .of_failure

/-- A mounted component is torn down, whatever callbacks there are. -/
theorem dismiss_of_alive {c : Client P} (ready : Ready c) {n : Nat} {i : Instance P}
    (alive : Alive c n i) :
    Clears i.element c (c.dismiss n i) ∧ Ready (c.dismiss n i) ∧
      (c.dismiss n i).mounted.get? i.element = none := by
  have clears := clears_dismiss alive.1 ready.toWired
  have torn := tearDown_of_plain alive.1 (Calls.none : Calls P Unit) ready.toWired
    ready.toPlainRecords ()
  have placed : Placed (c.dismiss n i) := by
    have strides := strides_tearDown keep_none n _ _ _ torn
    exact (strides.course ready.toPlaced).placed ready.toPlaced
  have gone : (c.dismiss n i).mounted.get? i.element = none := by
    rw [mounted_dismiss, mounted_detach, if_pos (ready.inTable n i alive),
      get?_erase ready.mountedKeys, if_pos rfl]
  exact ⟨clears, clears.ready ready placed gone, gone⟩

/-- Whatever is mounted on an element is torn down. -/
theorem unmountElement_of_ready {c : Client P} (ready : Ready c) (calls : Calls P μ) (memory : μ)
    (id : String) :
    ∃ c', calls.unmountElement id ⟨c, memory⟩ = some ((), ⟨c', memory⟩) ∧ Clears id c c' ∧
      Ready c' ∧ c'.mounted.get? id = none := by
  have taken := Clears.takeMounted ready.mountedKeys id
  have gone : (c.takeMounted id).2.mounted.get? id = none := by
    rw [Client.takeMounted, get?_erase ready.mountedKeys, if_pos rfl]
  have unmounts {calls : Calls P μ} {memory : μ} {c' : Client P}
      (torn : ((c.takeMounted id).1.forM calls.tearDown : Act P μ PUnit)
        ⟨(c.takeMounted id).2, memory⟩ = some ((), ⟨c', memory⟩)) :
      calls.unmountElement id ⟨c, memory⟩ = some ((), ⟨c', memory⟩) := by
    unfold Calls.unmountElement
    rw [Act.through_bind]
    exact torn
  have placed {c' : Client P} (torn : ∀ (calls : Calls P μ),
      calls.unmountElement id ⟨c, memory⟩ = some ((), ⟨c', memory⟩)) : Placed c' := by
    obtain ⟨strides, _⟩ := strides_unmountElement keep_none (torn Calls.none)
    exact (strides.course ready.toPlaced).placed ready.toPlaced
  cases stored : c.mounted.get? id with
  | none =>
    have torn (calls : Calls P μ) :
        calls.unmountElement id ⟨c, memory⟩ = some ((), ⟨(c.takeMounted id).2, memory⟩) := by
      apply unmounts
      rw [show (c.takeMounted id).1 = none from stored]
      rfl
    exact ⟨_, torn calls, taken, taken.ready ready (placed torn) gone, gone⟩
  | some n =>
    obtain ⟨i, alive, rfl⟩ := ready.occupied id n stored
    have wired : Wired (c.takeMounted i.element).2 :=
      (Shift.vacate c i.element).wired ready.toWired
    have found : (c.takeMounted i.element).2.instance? n = some i := alive.1
    have torn (calls : Calls P μ) : calls.unmountElement i.element ⟨c, memory⟩
        = some ((), ⟨(c.takeMounted i.element).2.dismiss n i, memory⟩) := by
      apply unmounts
      rw [show (c.takeMounted i.element).1 = some n from stored]
      exact tearDown_of_plain found calls wired (taken.plain ready.toPlainRecords) memory
    have clears := taken.trans (clears_dismiss found wired)
    have empty : ((c.takeMounted i.element).2.dismiss n i).mounted.get? i.element = none := by
      rw [mounted_dismiss, mounted_detach]
      split
      · rw [get?_erase wired.mountedKeys, if_pos rfl]
      · exact gone
    exact ⟨_, torn calls, clears, clears.ready ready (placed torn) empty, empty⟩

/-! ### Unmounting -/

variable {view : String → P.Body → View μ}

/-- When a component has gone, the others answer what they answered. -/
theorem Served.of_clears {c c' : Client P} {id : String} (clears : Clears id c c')
    (ready : Ready c') (gone : c'.mounted.get? id = none) : Served view c c' [] := by
  refine ⟨ready, clears.document, by simp, ?_⟩
  intro n i alive
  have other : i.element ≠ id := ready.vacant_of_absent gone n i alive
  exact .kept (clears.alive n i alive) (clears.answer other)

theorem unmount_served {c : Client P} (ready : Ready c) (calls : Calls P μ) (memory : μ)
    (n : Nat) :
    ∃ c', calls.unmount n ⟨c, memory⟩ = some ((), ⟨c', memory⟩) ∧ Served view c c' [] := by
  unfold Calls.unmount
  rw [Act.look_bind]
  split
  · next mounted =>
    have flagged := (Bool.and_eq_true_iff.1 mounted).2
    obtain ⟨i, found, flag⟩ := (Option.any_eq_true _ _).1 flagged
    obtain ⟨clears, ready', gone⟩ := dismiss_of_alive ready ⟨found, flag⟩
    have torn := tearDown_of_plain found calls ready.toWired ready.toPlainRecords memory
    exact ⟨_, torn, .of_clears clears ready' gone⟩
  · exact ⟨c, rfl, .refl ready⟩

/-! ### Mounting -/

/-- The instance that is made for a component. -/
def Client.fresh (c : Client P) (id : String) (body : P.Body) : Instance P :=
  { element := id, body, listener := some c.nextListener }

theorem alive_addInstance {c : Client P} {id : String} {body : P.Body} {n : Nat} {i : Instance P} :
    Alive (c.addInstance id body).2 n i ↔
      (n = c.instances.length ∧ i = c.fresh id body) ∨ Alive c n i := by
  rw [Alive, instance?_addInstance]
  constructor
  · rintro ⟨found, mounted⟩
    split at found
    · next new => exact .inl ⟨new, (Option.some.inj found).symm⟩
    · exact .inr ⟨found, mounted⟩
  · rintro (⟨rfl, rfl⟩ | ⟨found, mounted⟩)
    · exact ⟨if_pos rfl, rfl⟩
    · rw [if_neg (lt_of_instance? found).ne]
      exact ⟨found, mounted⟩

theorem Ready.addInstance {c : Client P} (ready : Ready c) {id : String} (body : P.Body)
    (gone : c.mounted.get? id = none) : Ready (c.addInstance id body).2 := by
  refine ⟨ready.toPlaced.addInstance body (ready.vacant_of_absent gone),
    ⟨ready.keys, ready.plain⟩, ready.idle, ?_, ?_, ?_⟩
  · intro other k l listed
    rw [listenersOf_addInstance] at listed
    split at listed
    · rcases List.mem_append.1 listed with listed | listed
      · exact ready.unheard other k l listed
      · simp at listed
    · exact ready.unheard other k l listed
  · intro n i found
    rw [instance?_addInstance] at found
    split at found
    · rw [← Option.some.inj found]
    · exact ready.resting n i found
  · intro other n stored
    rw [mounted_addInstance] at stored
    split at stored
    · next same =>
      obtain rfl := Option.some.inj stored
      exact ⟨_, alive_addInstance.2 (.inl ⟨rfl, rfl⟩), same⟩
    · obtain ⟨i, alive, element⟩ := ready.occupied other n stored
      exact ⟨i, alive_addInstance.2 (.inr alive), element⟩

section

variable {c c₁ : Client P} {memory : μ} {id : String} {body : P.Body} (calls : Calls P μ)
  (present : c.document.has id = true)
  (unmounted : calls.unmountElement id ⟨c, memory⟩ = some ((), ⟨c₁, memory⟩))

include present unmounted

theorem mount_of_rendered {w : World P μ}
    (rendered : calls.renderInstance c₁.instances.length ⟨(c₁.addInstance id body).2, memory⟩
      = some (.ok (), w)) :
    calls.mount id body ⟨c, memory⟩ = some (.ok c₁.instances.length, w) := by
  unfold Calls.mount
  rw [Act.look_bind, if_neg (by simpa using present)]
  refine Act.bind_eq_some.2 ⟨(), _, unmounted, ?_⟩
  rw [Act.through_bind]
  exact Act.bind_eq_some.2 ⟨.ok (), w, rendered, rfl⟩

theorem mount_of_failed {w w' : World P μ} {e : Fault}
    (rendered : calls.renderInstance c₁.instances.length ⟨(c₁.addInstance id body).2, memory⟩
      = some (.error e, w))
    (torn : calls.tearDown c₁.instances.length w = some ((), w')) :
    calls.mount id body ⟨c, memory⟩ = some (.error e, w') := by
  unfold Calls.mount
  rw [Act.look_bind, if_neg (by simpa using present)]
  refine Act.bind_eq_some.2 ⟨(), _, unmounted, ?_⟩
  rw [Act.through_bind]
  refine Act.bind_eq_some.2 ⟨.error e, w, rendered, ?_⟩
  exact Act.bind_eq_some.2 ⟨(), w', torn, rfl⟩

end

/-- Whoever is not on the element of a new component was there before, and answers
    the same after its first render. -/
theorem before_of_other {c c₁ c₃ : Client P} {id : String} {body : P.Body}
    {ws : List (String × String)} (clears : Clears id c c₁)
    (redrawn : Redrawn view (c₁.addInstance id body).2 c₃ ws) {m : Nat} {j : Instance P}
    (alive : Alive c₃ m j) (other : j.element ≠ id) :
    Alive c m j ∧ j.answer view c₃ = j.answer view c := by
  have alive₂ := redrawn.alive_iff.1 alive
  rcases alive_addInstance.1 alive₂ with ⟨_, rfl⟩ | alive₁
  · exact absurd rfl other
  · refine ⟨clears.alive m j alive₁, ?_⟩
    rw [redrawn.answers m j alive₂, ← clears.answer other]
    exact Instance.answer_congr rfl rfl

theorem mount_served {p : Program P μ} (draws : p.Draws view) (depth : Nat) {c : Client P}
    (ready : Ready c) (memory : μ) (id : String) (body : P.Body) :
    ∃ a c' memory' ws, (p.invoke (depth + 1)).mount id body ⟨c, memory⟩
        = some (a, ⟨c', memory'⟩) ∧ Served view c c' ws := by
  let calls := p.invoke (depth + 1)
  by_cases present : c.document.has id = true
  swap
  · refine ⟨.error (.noElement id), c, memory, [], ?_, .refl ready⟩
    unfold Calls.mount
    rw [Act.look_bind, if_pos (by simpa using present)]
    rfl
  obtain ⟨c₁, unmounted, clears, ready₁, gone⟩ := unmountElement_of_ready ready calls memory id
  let c₂ := (c₁.addInstance id body).2
  let n := c₁.instances.length
  let i := c₁.fresh id body
  have ready₂ : Ready c₂ := ready₁.addInstance body gone
  have alive : Alive c₂ n i := alive_addInstance.2 (.inl ⟨rfl, rfl⟩)
  obtain ⟨c₃, memory₃, rendered, redrawn⟩ := renderInstance_of_alive draws depth ready₂ memory alive
  have ready₃ : Ready c₃ := redrawn.ready ready₂
  have has : c₂.document.has i.element = true := by
    show c₁.document.has id = true
    rwa [clears.document]
  rw [has] at rendered
  have alive₃ : Alive c₃ n i := redrawn.alive_iff.2 alive
  cases answered : i.answer view c₂ with
  | error e =>
    rw [answered] at rendered redrawn
    obtain ⟨clears', ready', gone'⟩ := dismiss_of_alive ready₃ alive₃
    have torn := tearDown_of_plain alive₃.1 calls ready₃.toWired ready₃.toPlainRecords memory₃
    refine ⟨.error e, c₃.dismiss n i, memory₃, [],
      mount_of_failed calls present unmounted rendered torn, ready', ?_, by simp, ?_⟩
    · rw [clears'.document, redrawn.rest]
      exact clears.document
    · intro m j alive'
      have other : j.element ≠ id := ready'.vacant_of_absent gone' m j alive'
      obtain ⟨before, same⟩ := before_of_other clears redrawn (clears'.alive m j alive') other
      exact .kept before ((clears'.answer other).trans same)
  | ok html =>
    rw [answered] at rendered redrawn
    have shown : i.answer view c₃ = .ok html := (redrawn.answers n i alive).trans answered
    refine ⟨.ok n, c₃, memory₃, [(id, html)],
      mount_of_rendered calls present unmounted rendered, ready₃, ?_, ?_, ?_⟩
    · rw [redrawn.rest, ← clears.document]
      rfl
    · intro w hw
      obtain rfl := List.mem_singleton.1 hw
      exact ⟨n, i, alive₃, rfl, shown⟩
    · intro m j alive'
      by_cases other : j.element = id
      · obtain rfl := ready₃.eq_of_element alive' alive₃ other
        obtain rfl := Option.some.inj (alive'.1.symm.trans alive₃.1)
        exact .new present shown (List.mem_singleton.2 rfl)
      · obtain ⟨before, same⟩ := before_of_other clears redrawn alive' other
        exact .kept before same

end PageTree.Live
