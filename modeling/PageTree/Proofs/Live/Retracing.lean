/-
  PageTree/Proofs/Live/Retracing.lean
  ===================================
  **Rendering a component again that only reads.**

  A body that only reads calls the hooks it has called before, looks at states,
  cells and contexts, and changes nothing.  Its hooks find their slots, so a pass
  leaves behind the position it ended at and nothing else.  What the body answers
  depends on the slots, the cells and the contexts, and not on the positions of
  other components or the document.

    * `run_of_retraces`: the body answers the same wherever that is the same.
    * `react_of_redraws`: a render writes the position and the markup.
-/
import PageTree.Proofs.Live.Inertness
import PageTree.Proofs.Live.Writes

namespace PageTree.Live

variable {P : Callbacks} {μ α : Type}

/-! ### Hook positions -/

/-- Moves a component to a hook position. -/
def Client.seek (c : Client P) (id : String) (position : Nat) : Client P :=
  c.modifyRecord id fun r => { r with cursor := position }

/-- The next hook of the component claims the position.  A component that has no
    hooks is at every position. -/
def Client.AtHook (c : Client P) (id : String) (position : Nat) : Prop :=
  ∀ r, c.records.get? id = some r → r.cursor = position

theorem seek_of_atHook {c : Client P} {id : String} {k : Nat} (at_k : c.AtHook id k) :
    c.seek id k = c := by
  have same : c.records.modify id (fun r => { r with cursor := k }) = c.records := by
    refine OrderedMap.modify_eq_self fun r found => ?_
    rw [← at_k r found]
  rw [Client.seek, Client.modifyRecord, same]

theorem seek_seek (c : Client P) (id : String) (j k : Nat) :
    (c.seek id j).seek id k = c.seek id k := by
  have same := OrderedMap.modify_modify c.records id
    (fun r : HookRecord P => { r with cursor := j }) fun r => { r with cursor := k }
  exact congrArg (fun records => { c with records }) same

theorem get?_seek (c : Client P) (id other : String) (k : Nat) :
    (c.seek id k).records.get? other
      = if id = other then (c.records.get? other).map fun r => { r with cursor := k }
        else c.records.get? other := by
  simp only [Client.seek, Client.modifyRecord, OrderedMap.get?_modify, beq_iff_eq]

theorem atHook_seek (c : Client P) (id : String) (k : Nat) : (c.seek id k).AtHook id k := by
  intro r found
  rw [get?_seek, if_pos rfl] at found
  obtain ⟨r', _, rfl⟩ := Option.map_eq_some_iff.1 found
  rfl

/-! ### Hooks that find their slots -/

theorem claim_of_found {c : Client P} {id : String} {r : HookRecord P}
    (found : c.records.get? id = some r) : c.claim id = (r.cursor, c.seek id (r.cursor + 1)) := by
  have record : c.recordOf id = r := by rw [Client.recordOf, found, Option.getD_some]
  have present : c.records.contains id = true := by rw [OrderedMap.contains, found, Option.isSome]
  have moved : c.records.insert id { r with cursor := r.cursor + 1 }
      = c.records.modify id fun r' => { r' with cursor := r.cursor + 1 } := by
    rw [OrderedMap.insert_eq_modify found]
    refine OrderedMap.modify_congr fun r' found' => ?_
    rw [Option.some.inj (found.symm.trans found')]
  simp only [Client.claim, record, present, if_true, moved]
  rfl

theorem modifyRecord_seek {c : Client P} {id : String} {r : HookRecord P} {k : Nat}
    {f : HookRecord P → HookRecord P} (found : c.records.get? id = some r)
    (same : f { r with cursor := k } = { r with cursor := k }) :
    (c.seek id k).modifyRecord id f = c.seek id k := by
  have unchanged : (c.seek id k).records.modify id f = (c.seek id k).records := by
    refine OrderedMap.modify_eq_self fun r' found' => ?_
    rw [get?_seek, if_pos rfl, found] at found'
    rw [← Option.some.inj found']
    exact same
  rw [Client.modifyRecord, unchanged]

theorem recordOf_seek {c : Client P} {id : String} {r : HookRecord P}
    (found : c.records.get? id = some r) (k : Nat) :
    (c.seek id k).recordOf id = { r with cursor := k } := by
  rw [Client.recordOf, get?_seek, if_pos rfl, found]
  rfl

section

variable {c : Client P} {id : String} {r : HookRecord P} (found : c.records.get? id = some r)

include found

theorem useState_of_found {v : Value} {slot : StateSlot P}
    (kept : r.states.get? r.cursor = some slot) :
    c.useState id v
      = (if slot.value.kind = v.kind then .ok (slot.value, ⟨id, r.cursor, v.kind⟩)
          else .error (.hookChanged id r.cursor), c.seek id (r.cursor + 1)) := by
  have unchanged := modifyRecord_seek (k := r.cursor + 1)
    (f := fun r' => { r' with states := r'.states.insert r.cursor slot }) found
    (by simp only [Slots.insert_eq_self kept])
  simp only [Client.useState, claim_of_found found, recordOf_seek found, kept, Option.getD_some,
    unchanged]
  split <;> rfl

theorem useCell_of_found {v : Value} {cell : Nat} (kept : r.cells.get? r.cursor = some cell) :
    c.useCell id v
      = (if (c.cellValue cell).kind = v.kind then .ok ⟨cell, v.kind⟩
          else .error (.hookChanged id r.cursor), c.seek id (r.cursor + 1)) := by
  have value : (c.seek id (r.cursor + 1)).cellValue cell = c.cellValue cell := rfl
  simp only [Client.useCell, claim_of_found found, recordOf_seek found, kept, value]
  split <;> rfl

theorem useEffect_of_found {deps : Option Deps} {slot : EffectSlot P} (e : P.Effect)
    (kept : r.effects.get? r.cursor = some slot) (idle : Deps.isDue deps slot.deps = false) :
    c.useEffect id deps e = c.seek id (r.cursor + 1) := by
  have unchanged := modifyRecord_seek (k := r.cursor + 1)
    (f := fun r' => { r' with effects := r'.effects.insert r.cursor slot }) found
    (by simp only [Slots.insert_eq_self kept])
  simp only [Client.useEffect, claim_of_found found, recordOf_seek found, kept, Option.getD_some,
    unchanged, idle]
  rfl

end

/-! ### Requests that only read -/

/-- What a request of the body of a component answers if it only reads, and the
    position that the next hook claims then. -/
def Request.reading (c : Client P) (id : String) (position : Nat) {β : Type} :
    Request P β → Option (β × Nat)
  | .useState _ v => (c.stateSlot? ⟨id, position, v.kind⟩).map fun slot =>
    (if slot.value.kind = v.kind then .ok (slot.value, ⟨id, position, v.kind⟩)
      else .error (.hookChanged id position), position + 1)
  | .useCell _ v => ((c.records.get? id).bind fun r => r.cells.get? position).map fun cell =>
    (if (c.cellValue cell).kind = v.kind then .ok ⟨cell, v.kind⟩
      else .error (.hookChanged id position), position + 1)
  | .useEffect _ deps _ =>
    ((c.records.get? id).bind fun r => r.effects.get? position).bind fun slot =>
      if Deps.isDue deps slot.deps then none else some (.ok (), position + 1)
  | .useContext _ name kind => some (c.contextValue name kind, position)
  | .read s => some (c.read s, position)
  | .readCell r => some (c.cellValue r.cell, position)
  | .openContext name kind => some (c.openContext name kind, position)
  | .readContext h => some (c.contextValue h.id h.kind, position)
  | .hasContext name => some (c.contexts.contains name, position)
  | _ => none

/-- Whoever only reads finds the same in both clients. -/
structure Similar (c e : Client P) : Prop where
  slots : ∀ id, (e.records.get? id).map (fun r => { r with cursor := 0 })
    = (c.records.get? id).map fun r => { r with cursor := 0 }
  contexts : e.contexts = c.contexts
  cells : e.cells = c.cells

namespace Similar

theorem refl (c : Client P) : Similar c c := ⟨fun _ => rfl, rfl, rfl⟩

theorem seek {c e : Client P} (h : Similar c e) (id : String) (k : Nat) :
    Similar c (e.seek id k) := by
  refine ⟨fun other => ?_, h.contexts, h.cells⟩
  rw [get?_seek, ← h.slots other]
  split
  · rw [Option.map_map]
    rfl
  · rfl

/-- What does not depend on positions is the same. -/
theorem found {c e : Client P} (h : Similar c e) (id : String) {β : Type}
    (f : HookRecord P → Option β) (hf : ∀ r, f { r with cursor := 0 } = f r) :
    (e.records.get? id).bind f = (c.records.get? id).bind f := by
  have rewound (o : Option (HookRecord P)) :
      (o.map fun r => { r with cursor := 0 }).bind f = o.bind f := by
    cases o with
    | none => rfl
    | some r => exact hf r
  rw [← rewound, h.slots, rewound]

theorem stateSlot? {c e : Client P} (h : Similar c e) (s : Setter) :
    e.stateSlot? s = c.stateSlot? s :=
  h.found s.component (fun r => r.states.get? s.index) fun _ => rfl

theorem contextValue {c e : Client P} (h : Similar c e) (name : String) (kind : ValueKind) :
    e.contextValue name kind = c.contextValue name kind := by
  rw [Client.contextValue, Client.contextValue, h.contexts]

theorem cellValue {c e : Client P} (h : Similar c e) (cell : Nat) :
    e.cellValue cell = c.cellValue cell := by
  rw [Client.cellValue, Client.cellValue, h.cells]

theorem reading {c e : Client P} (h : Similar c e) (id : String) (k : Nat) {β : Type}
    (r : Request P β) : r.reading e id k = r.reading c id k := by
  cases r with
  | useState _ v => simp only [Request.reading, h.stateSlot?]
  | useCell _ v =>
    have cells := h.found id (fun r => r.cells.get? k) fun _ => rfl
    simp only [Request.reading, cells, h.cellValue]
  | useEffect _ deps e =>
    have effects := h.found id (fun r => r.effects.get? k) fun _ => rfl
    simp only [Request.reading, effects]
  | useContext _ name kind => simp only [Request.reading, h.contextValue]
  | read s => simp only [Request.reading, Client.read, h.stateSlot?]
  | readCell r => simp only [Request.reading, h.cellValue]
  | openContext name kind => simp only [Request.reading, Client.openContext, h.contextValue]
  | readContext _ => simp only [Request.reading, h.contextValue]
  | hasContext name => simp only [Request.reading, h.contexts]
  | _ => rfl

end Similar

theorem hookTarget_of_current {c : Client P} {id : String} (current : c.current = some id)
    (ambient : Bool) : Calls.hookTarget (some id) ambient c = some id := by
  cases ambient
  · rfl
  · exact current

theorem hook_of_current {c : Client P} {id : String} (current : c.current = some id)
    (memory : μ) (ambient : Bool) (name : String)
    (f : String → Client P → Except Fault α × Client P) :
    Calls.hook (some id) ambient name f ⟨c, memory⟩ = some ((f id c).1, ⟨(f id c).2, memory⟩) :=
  hook_of_target (hookTarget_of_current current ambient) name f

/-- A request that only reads moves the component to its next position. -/
theorem serve_of_reading (calls : Calls P μ) {c : Client P} (memory : μ) {id : String}
    {k k' : Nat} {β : Type} {r : Request P β} {b : β} (current : c.current = some id)
    (at_k : c.AtHook id k) (answered : r.reading c id k = some (b, k')) :
    calls.serve (some id) r ⟨c, memory⟩ = some (b, ⟨c.seek id k', memory⟩) := by
  have stays {b : β} (look : calls.serve (some id) r ⟨c, memory⟩ = some (b, ⟨c, memory⟩)) :
      calls.serve (some id) r ⟨c, memory⟩ = some (b, ⟨c.seek id k, memory⟩) := by
    rw [seek_of_atHook at_k]
    exact look
  cases r with
  | useState ambient v =>
    obtain ⟨slot, kept, answer⟩ := Option.map_eq_some_iff.1 answered
    obtain ⟨record, found, kept⟩ := Option.bind_eq_some_iff.1 kept
    obtain rfl := at_k record found
    have served : calls.serve (some id) (.useState ambient v) ⟨c, memory⟩
        = some ((c.useState id v).1, ⟨(c.useState id v).2, memory⟩) :=
      hook_of_current current memory ambient "use_state" fun id c => c.useState id v
    rw [served, useState_of_found found kept]
    cases answer
    rfl
  | useCell ambient v =>
    obtain ⟨cell, kept, answer⟩ := Option.map_eq_some_iff.1 answered
    obtain ⟨record, found, kept⟩ := Option.bind_eq_some_iff.1 kept
    obtain rfl := at_k record found
    have served : calls.serve (some id) (.useCell ambient v) ⟨c, memory⟩
        = some ((c.useCell id v).1, ⟨(c.useCell id v).2, memory⟩) :=
      hook_of_current current memory ambient "use_ref" fun id c => c.useCell id v
    rw [served, useCell_of_found found kept]
    cases answer
    rfl
  | useEffect ambient deps e =>
    obtain ⟨slot, kept, answer⟩ := Option.bind_eq_some_iff.1 answered
    obtain ⟨record, found, kept⟩ := Option.bind_eq_some_iff.1 kept
    obtain rfl := at_k record found
    have served : calls.serve (some id) (.useEffect ambient deps e) ⟨c, memory⟩
        = some (.ok (), ⟨c.useEffect id deps e, memory⟩) :=
      hook_of_current current memory ambient "use_effect" fun id c =>
        (.ok (), c.useEffect id deps e)
    split at answer
    · cases answer
    · next idle =>
      rw [served, useEffect_of_found found e kept (by simpa using idle)]
      cases answer
      rfl
  | useContext ambient name kind =>
    cases answered
    exact stays (hook_of_current current memory ambient "use_context" fun _ c =>
      (c.contextValue name kind, c))
  | read | readCell | openContext | readContext | hasContext =>
    cases answered
    exact stays rfl
  | _ => cases answered

/-! ### Bodies that only read -/

/-- From one position to another the body of a component only reads, and gives
    the answer. -/
inductive Retraces (c : Client P) (id : String) (memory : μ) :
    Nat → Routine P μ α → α → Nat → Prop
  | done {k a} : Retraces c id memory k (.done a) a k
  | own {β k f a k'} {next : β → Routine P μ α} (same : (f memory).2 = memory)
      (rest : Retraces c id memory k (next (f memory).1) a k') :
      Retraces c id memory k (.own f next) a k'
  | call {β k r b k' a k''} {next : β → Routine P μ α}
      (answered : Request.reading c id k r = some (b, k'))
      (rest : Retraces c id memory k' (next b) a k'') : Retraces c id memory k (.call r next) a k''

/-- A body that only reads answers the same wherever it finds the same. -/
theorem run_of_retraces (calls : Calls P μ) {c e : Client P} {memory : μ} {id : String}
    {k k' : Nat} {m : Routine P μ α} {a : α} (retraces : Retraces c id memory k m a k')
    (similar : Similar c e) (current : e.current = some id) (at_k : e.AtHook id k) :
    m.run (calls.serve (some id)) ⟨e, memory⟩ = some (a, ⟨e.seek id k', memory⟩) := by
  induction retraces generalizing e with
  | done =>
    rw [seek_of_atHook at_k]
    rfl
  | @own β k f a k' next same rest ih =>
    have here := ih similar current at_k
    show (next (f memory).1).run _ ⟨e, (f memory).2⟩ = _
    rw [same]
    exact here
  | @call β k r b k' a k'' next answered rest ih =>
    rw [← similar.reading] at answered
    have served := serve_of_reading calls memory current at_k answered
    have later := ih (similar.seek id k') current (atHook_seek e id k')
    rw [seek_seek] at later
    exact Act.bind_eq_some.2 ⟨b, _, served, later⟩

/-! ### Renders that only read -/

/-- What is left behind when a component is rendered again that only reads. -/
structure Drawing where
  element : String
  position : Nat
  /-- The new markup, unless the body failed. -/
  markup : Option String

def Drawing.writes (d : Drawing) : List (String × String) := d.markup.toList.map (d.element, ·)

def Client.draw (c : Client P) (d : Drawing) : Client P :=
  { c.seek d.element d.position with document := c.document.writeAll d.writes }

/-- Similar clients with the same components mounted and the same effects
    waiting. -/
structure Alike (c e : Client P) : Prop extends Similar c e where
  instances : e.instances = c.instances
  mounted : e.mounted = c.mounted
  pending : e.pending = c.pending

theorem Alike.refl (c : Client P) : Alike c c := ⟨.refl c, rfl, rfl, rfl⟩

theorem Alike.draw {c e : Client P} (h : Alike c e) (d : Drawing) : Alike c (e.draw d) := by
  have sought := h.toSimilar.seek d.element d.position
  exact ⟨⟨sought.slots, h.contexts, h.cells⟩, h.instances, h.mounted, h.pending⟩

theorem Alike.beginRender {c e : Client P} (h : Alike c e) (n : Nat) :
    (e.beginRender n).1 = (c.beginRender n).1 := by
  have known : e.instance? n = c.instance? n := by
    rw [Client.instance?, Client.instance?, h.instances]
  unfold Client.beginRender
  rw [known]
  cases c.instance? n with
  | none => rfl
  | some i =>
    have reachable : e.isReachable n i = c.isReachable n i := by
      rw [Client.isReachable, Client.isReachable, h.mounted]
    dsimp only
    rw [reachable]
    by_cases free : (i.mounted && !i.rendering && c.isReachable n i) = true
    · rw [if_pos free, if_pos free]
    · rw [if_neg free, if_neg free]

theorem beginRender_of_begun {c : Client P} {n : Nat} {i : Instance P}
    (begun : (c.beginRender n).1 = some i) :
    c.beginRender n = (some i, c.modifyInstance n fun i => { i with rendering := true }) ∧
      c.instance? n = some i ∧ i.rendering = false := by
  unfold Client.beginRender at begun ⊢
  cases found : c.instance? n with
  | none =>
    rw [found] at begun
    cases begun
  | some j =>
    rw [found] at begun
    dsimp only at begun ⊢
    split at begun
    · next free =>
      obtain rfl := Option.some.inj begun
      rw [if_pos free]
      simp only [Bool.and_eq_true, Bool.not_eq_true'] at free
      exact ⟨rfl, rfl, free.1.2⟩
    · cases begun

theorem beginRender_of_none {c : Client P} {n : Nat} (idle : (c.beginRender n).1 = none) :
    c.beginRender n = (none, c) := by
  unfold Client.beginRender at idle ⊢
  cases found : c.instance? n with
  | none => rfl
  | some j =>
    rw [found] at idle
    dsimp only at idle ⊢
    split at idle
    · cases idle
    · next busy => rw [if_neg busy]

theorem modify_rendering {c : Client P} {n : Nat} {i : Instance P}
    (found : c.instance? n = some i) (free : i.rendering = false) :
    (c.instances.modify n fun i => { i with rendering := true }).modify n
      (fun i => { i with rendering := false }) = c.instances := by
  apply List.ext_getElem?
  intro m
  by_cases same : n = m
  · subst same
    have here : c.instances[n]? = some i := found
    simp [here, ← free]
  · simp [same]

theorem endRender_seek {c : Client P} {n : Nat} {i : Instance P} (found : c.instance? n = some i)
    (free : i.rendering = false) (id : String) (k : Nat) :
    ((c.modifyInstance n fun i => { i with rendering := true }).seek id k).endRender n
      = c.seek id k :=
  congrArg (fun instances => { c.seek id k with instances }) (modify_rendering found free)

theorem discardPending_of_none_waits {c : Client P} {id : String}
    (settled : ∀ e ∈ c.pending, e.component ≠ id) : c.discardPending id = c := by
  have kept : (c.pending.partition (·.component == id)).2 = c.pending := by
    simpa [List.partition_eq_filter_filter] using settled
  exact congrArg (fun pending => { c with pending }) kept

theorem runPass_of_retraces (p : Program P μ) (depth : Nat) {c e : Client P} {memory : μ}
    {id : String} {body : P.Body} {k : Nat} {result : Except Fault String}
    (retraces : Retraces c id memory 0 (p.render id body) result k) (similar : Similar c e) :
    (p.invoke (depth + 1)).runPass id body ⟨e, memory⟩ = some (result, ⟨e.seek id k, memory⟩) := by
  have begun : (e.beginPass id).2 = { e.seek id 0 with current := some id } := rfl
  have rewound : Similar c (e.beginPass id).2 := by
    have sought := similar.seek id 0
    exact ⟨sought.slots, similar.contexts, similar.cells⟩
  have ran := run_of_retraces (p.invoke depth) retraces rewound rfl (atHook_seek e id 0)
  refine Act.bind_eq_some.2 ⟨e.current, _, rfl, ?_⟩
  refine Act.bind_eq_some.2 ⟨result, _, ran, ?_⟩
  have ended : ((e.beginPass id).2.seek id k).endPass e.current = e.seek id k := by
    rw [← seek_seek e id 0 k]
    rfl
  exact congrArg (fun client => some (result, World.mk client memory)) ended

/-- How a render ends, given what its callback answered. -/
def Instance.outcome (i : Instance P) (present : Bool) : Except Fault String → Except Fault Unit
  | .error e => .error e
  | .ok _ => if present then .ok () else .error (.noElement i.element)

/-- The rest of a render writes the markup, if there is any. -/
theorem conclude_of_settled (calls : Calls P μ) {c : Client P} (memory : μ) {n : Nat}
    {i : Instance P} (result : Except Fault String)
    (settled : ∀ e ∈ c.pending, e.component ≠ i.element) :
    calls.conclude n i result ⟨c, memory⟩
      = some (i.outcome (c.document.has i.element) result, ⟨{ c.endRender n with
          document := c.document.writeAll
            (result.toOption.toList.map (i.element, ·)) }, memory⟩) := by
  have kept : (c.endRender n).discardPending i.element = c.endRender n :=
    discardPending_of_none_waits settled
  cases result with
  | error e =>
    rw [conclude_error]
    exact congrArg (fun client => some (_, World.mk client memory)) kept
  | ok html =>
    rw [conclude_ok, Instance.outcome]
    split
    · have flushed := flush_of_none_waits calls (w := World.written ⟨c, memory⟩ n i html)
        (takePending_eq_nil_iff.2 settled)
      have none_left : (World.written ⟨c, memory⟩ n i html).client.discardPending i.element
          = (World.written ⟨c, memory⟩ n i html).client := discardPending_of_none_waits settled
      rw [none_left] at flushed
      exact Act.bind_eq_some.2 ⟨(), _, flushed, rfl⟩
    · next absent =>
      have unwritten := Document.setHtml_of_not_has html (by simpa using absent)
      have same : c.document.writeAll [(i.element, html)] = c.document := unwritten
      have undrawn : (c.endRender n).discardPending i.element
          = { c.endRender n with document := c.document.writeAll [(i.element, html)] } := by
        rw [kept, same]
        rfl
      exact congrArg (fun client => some (_, World.mk client memory)) undrawn

/-- How a component that only reads reacts to a change: with a drawing, or with
    nothing. -/
inductive Redraws (p : Program P μ) (c : Client P) (memory : μ) :
    Reaction P → Option Drawing → Prop
  | idle {n} (resting : (c.beginRender n).1 = none) : Redraws p c memory (.rerender n) none
  | draws {n i result k} (begun : (c.beginRender n).1 = some i)
      (retraces : Retraces c i.element memory 0 (p.render i.element i.body) result k)
      (settled : ∀ e ∈ c.pending, e.component ≠ i.element) :
      Redraws p c memory (.rerender n) (some ⟨i.element, k, result.toOption⟩)
  | silent {l}
      (passes : ∀ (calls : Calls P μ) (e : Client P),
        (p.listener l).run (calls.serve none) ⟨e, memory⟩ = some ((), ⟨e, memory⟩)) :
      Redraws p c memory (.call l) none

theorem react_of_redraws {p : Program P μ} (depth : Nat) {c e : Client P} {memory : μ}
    {r : Reaction P} {drawing : Option Drawing} (redraws : Redraws p c memory r drawing)
    (alike : Alike c e) :
    (p.invoke (depth + 1)).react r ⟨e, memory⟩
      = some ((), ⟨drawing.toList.foldl Client.draw e, memory⟩) := by
  cases redraws with
  | silent passes => exact passes (p.invoke depth) e
  | @idle n resting =>
    have nothing : (p.invoke (depth + 1)).renderInstance n ⟨e, memory⟩
        = some (.ok (), ⟨e, memory⟩) :=
      renderInstance_of_not_begun (beginRender_of_none ((alike.beginRender n).trans resting))
    exact Act.bind_eq_some.2 ⟨.ok (), _, nothing, rfl⟩
  | @draws n i result k begun retraces settled =>
    have begun : (e.beginRender n).1 = some i := (alike.beginRender n).trans begun
    obtain ⟨entered, found, free⟩ := beginRender_of_begun begun
    have similar : Similar c (e.beginRender n).2 := by
      rw [entered]
      exact ⟨alike.slots, alike.contexts, alike.cells⟩
    have rendered : (p.invoke (depth + 1)).renderInstance n ⟨e, memory⟩
        = (p.invoke (depth + 1)).conclude n i result
          ⟨(e.beginRender n).2.seek i.element k, memory⟩ :=
      renderInstance_of_begun begun (runPass_of_retraces p depth retraces similar)
    have waiting : ((e.beginRender n).2.seek i.element k).pending = c.pending := by
      rw [entered]
      exact alike.pending
    have concluded := conclude_of_settled (p.invoke (depth + 1)) memory
      (n := n) (i := i) (c := (e.beginRender n).2.seek i.element k) result
      (by rw [waiting]; exact settled)
    rw [concluded, entered, endRender_seek found free] at rendered
    exact Act.bind_eq_some.2 ⟨_, _, rendered, rfl⟩

end PageTree.Live
