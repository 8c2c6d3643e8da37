/-
  PageTree/Proofs/Live/Views.lean
  ===============================
  **Bodies that show states and contexts.**

  A view calls the hooks of states and contexts and answers; it writes nothing
  and queues no effect.  It may keep what it is given, its setters above all, in
  the memory of the program, but it does not look there.  What it answers depends
  on the values of its states by position and on the contexts alone.  A pass makes
  the states that are not there yet, from their initial values, so the pass after
  it answers the same.

    * `View.run_routine`: a view is carried out, and answers what it says.
    * `runPass_of_draws`: so does a pass of a component whose body is a view.
-/
import PageTree.Proofs.Live.Retracing

namespace PageTree.Live

variable {P : Callbacks} {μ : Type}

/-! ### Views -/

inductive View (μ : Type) where
  | shows (answer : Except Fault String)
  /-- Keeps something in the memory of the program. -/
  | keep (f : μ → μ) (next : View μ)
  | state (ambient : Bool) (initial : Value) (next : Except Fault (Value × Setter) → View μ)
  | context (ambient : Bool) (name : String) (kind : ValueKind)
      (next : Except Fault Value → View μ)

namespace View

def routine : View μ → Routine P μ (Except Fault String)
  | shows answer => .done answer
  | keep f next => .own (fun memory => ((), f memory)) fun _ => next.routine
  | state ambient initial next => .call (.useState ambient initial) fun a => (next a).routine
  | context ambient name kind next =>
    .call (.useContext ambient name kind) fun a => (next a).routine

end View

/-- The value of a state of a component, by its position. -/
def Client.stored (c : Client P) (id : String) (k : Nat) : Option Value :=
  ((c.recordOf id).states.get? k).map (·.value)

/-- What the hook of a state at a position gives, given the value there. -/
def handState (id : String) (k : Nat) (initial v : Value) : Except Fault (Value × Setter) :=
  if v.kind = initial.kind then .ok (v, ⟨id, k, initial.kind⟩) else .error (.hookChanged id k)

/-- What a view answers from a hook position of its component on. -/
def View.answer (c : Client P) (id : String) : Nat → View μ → Except Fault String
  | _, .shows a => a
  | k, .keep _ next => next.answer c id k
  | k, .state _ initial next =>
    (next (handState id k initial ((c.stored id k).getD initial))).answer c id (k + 1)
  | k, .context _ name kind next => (next (c.contextValue name kind)).answer c id k

/-- Values at earlier positions do not matter. -/
theorem View.answer_congr {c e : Client P} {id : String} (contexts : e.contexts = c.contexts)
    (view : View μ) {k : Nat} (stored : ∀ j, k ≤ j → e.stored id j = c.stored id j) :
    view.answer e id k = view.answer c id k := by
  induction view generalizing k with
  | shows => rfl
  | keep f next ih => exact ih stored
  | state ambient initial next ih =>
    simp only [answer, stored k le_rfl]
    exact ih _ fun j hj => stored j (Nat.le_of_succ_le hj)
  | context ambient name kind next ih =>
    have value : e.contextValue name kind = c.contextValue name kind := by
      rw [Client.contextValue, Client.contextValue, contexts]
    simp only [answer, value]
    exact ih _ stored

/-! ### Records that hold states only -/

/-- The record has no effects, and nobody listens to its states. -/
structure HookRecord.Plain (r : HookRecord P) : Prop where
  effects : r.effects.entries = []
  states : ∀ k slot, r.states.get? k = some slot → slot.listeners = []

structure PlainRecords (c : Client P) : Prop where
  keys : c.records.keys.Nodup
  plain : ∀ id r, c.records.get? id = some r → r.Plain

theorem PlainRecords.recordOf {c : Client P} (plain : PlainRecords c) (id : String) :
    (c.recordOf id).Plain := by
  rw [Client.recordOf]
  cases found : c.records.get? id with
  | none =>
    refine ⟨rfl, ?_⟩
    intro k slot kept
    cases kept
  | some r => exact plain.plain id r found

/-- From a position on, states of the component have been made.  All else is as it
    was. -/
structure Fills (id : String) (k : Nat) (c c' : Client P) : Prop where
  rest : c' = { c with records := c'.records, nextRecord := c'.nextRecord }
  others : ∀ other, other ≠ id → c'.records.get? other = c.records.get? other
  before : ∀ j < k, c'.stored id j = c.stored id j
  plain : PlainRecords c → PlainRecords c'

namespace Fills

variable {c c' c'' : Client P} {id : String} {k : Nat}

theorem refl (c : Client P) (id : String) (k : Nat) : Fills id k c c :=
  ⟨rfl, fun _ _ => rfl, fun _ _ => rfl, fun plain => plain⟩

theorem trans (h : Fills id k c c') (h' : Fills id (k + 1) c' c'') : Fills id k c c'' := by
  refine ⟨?_, ?_, ?_, fun plain => h'.plain (h.plain plain)⟩
  · rw [h'.rest, h.rest]
  · intro other ne
    rw [h'.others other ne, h.others other ne]
  · intro j hj
    rw [h'.before j (Nat.lt_succ_of_lt hj), h.before j hj]

end Fills

/-! ### The hook of a state -/

/-- The state at the position of a record, as the hook finds or makes it. -/
def HookRecord.stateHere (r : HookRecord P) (initial : Value) : StateSlot P :=
  (r.states.get? r.cursor).getD { value := initial }

def HookRecord.putState (k : Nat) (slot : StateSlot P) (r : HookRecord P) : HookRecord P :=
  { r with states := r.states.insert k slot }

/-- The record of a component after the hook of a state was called. -/
def HookRecord.withState (r : HookRecord P) (initial : Value) : HookRecord P :=
  { r with cursor := r.cursor + 1 }.putState r.cursor (r.stateHere initial)

theorem HookRecord.Plain.withState {r : HookRecord P} (plain : r.Plain) (initial : Value) :
    (r.withState initial).Plain := by
  refine ⟨plain.effects, ?_⟩
  intro k slot found
  by_cases here : r.cursor = k
  · subst here
    obtain rfl : r.stateHere initial = slot := by
      simpa [HookRecord.withState, HookRecord.putState] using found
    rw [HookRecord.stateHere]
    cases old : r.states.get? r.cursor with
    | none => rfl
    | some slot => exact plain.states _ slot old
  · rw [HookRecord.withState, HookRecord.putState, Slots.get?_insert_of_ne here] at found
    exact plain.states k slot found

section

variable (c : Client P) (id : String) (initial : Value)

theorem stateHere_value :
    ((c.recordOf id).stateHere initial).value
      = (c.stored id (c.recordOf id).cursor).getD initial := by
  rw [HookRecord.stateHere, Client.stored]
  cases (c.recordOf id).states.get? (c.recordOf id).cursor <;> rfl

theorem useState_eq :
    c.useState id initial
      = (handState id (c.recordOf id).cursor initial
            ((c.stored id (c.recordOf id).cursor).getD initial),
          (c.claim id).2.modifyRecord id
            (.putState (c.recordOf id).cursor ((c.recordOf id).stateHere initial))) := by
  have claimed : c.claim id = ((c.recordOf id).cursor, (c.claim id).2) := rfl
  have here : (((c.claim id).2.recordOf id).states.get? (c.recordOf id).cursor).getD
      { value := initial } = (c.recordOf id).stateHere initial := by
    simp [Client.claim, Client.recordOf, HookRecord.stateHere]
  rw [← stateHere_value, Client.useState, claimed, handState]
  simp only [here]
  by_cases kind : ((c.recordOf id).stateHere initial).value.kind = initial.kind
  · simp only [if_pos kind]
    rfl
  · simp only [if_neg kind]
    rfl

theorem useState_records :
    (c.useState id initial).2 = { c with
        records := (c.useState id initial).2.records
        nextRecord := (c.useState id initial).2.nextRecord } ∧
      (c.records.keys.Nodup → (c.useState id initial).2.records.keys.Nodup) ∧
      ∀ other, (c.useState id initial).2.records.get? other
        = if id = other then some ((c.recordOf id).withState initial)
          else c.records.get? other := by
  rw [useState_eq]
  refine ⟨rfl, ?_, ?_⟩
  · intro nodup
    rw [Client.modifyRecord, OrderedMap.keys_modify]
    exact OrderedMap.nodup_keys_insert nodup id _
  · intro other
    rw [Client.modifyRecord, Client.claim, OrderedMap.get?_modify, OrderedMap.get?_insert]
    by_cases here : id = other
    · simp [here, HookRecord.withState]
    · simp [here]

theorem recordOf_useState :
    (c.useState id initial).2.recordOf id = (c.recordOf id).withState initial := by
  rw [Client.recordOf, (useState_records c id initial).2.2, if_pos rfl, Option.getD_some]

theorem stored_useState (j : Nat) :
    (c.useState id initial).2.stored id j
      = if (c.recordOf id).cursor = j then some ((c.stored id j).getD initial)
        else c.stored id j := by
  rw [Client.stored, recordOf_useState, HookRecord.withState, HookRecord.putState]
  split
  · next here =>
    subst here
    rw [Slots.get?_insert_self, Option.map_some, stateHere_value]
  · next other =>
    rw [Slots.get?_insert_of_ne other]
    rfl

theorem fills_useState : Fills id (c.recordOf id).cursor c (c.useState id initial).2 := by
  obtain ⟨rest, keys, found⟩ := useState_records c id initial
  refine ⟨rest, ?_, ?_, ?_⟩
  · intro other ne
    rw [found, if_neg ne.symm]
  · intro j hj
    rw [stored_useState, if_neg hj.ne']
  · intro plain
    refine ⟨keys plain.keys, ?_⟩
    intro other r hr
    rw [found] at hr
    split at hr
    · obtain rfl := Option.some.inj hr
      exact (plain.recordOf id).withState initial
    · exact plain.plain other r hr

end

/-! ### Carrying out a view -/

section

variable (calls : Calls P μ) {c : Client P} (memory : μ) {id : String}
  (current : c.current = some id) (ambient : Bool)

include current

theorem serve_useContext (name : String) (kind : ValueKind) :
    calls.serve (some id) (.useContext ambient name kind) ⟨c, memory⟩
      = some (c.contextValue name kind, ⟨c, memory⟩) :=
  hook_of_current current memory ambient "use_context" fun _ c => (c.contextValue name kind, c)

theorem serve_useState (initial : Value) :
    calls.serve (some id) (.useState ambient initial) ⟨c, memory⟩
      = some (handState id (c.recordOf id).cursor initial
            ((c.stored id (c.recordOf id).cursor).getD initial),
          ⟨(c.useState id initial).2, memory⟩) := by
  have called : calls.serve (some id) (.useState ambient initial) ⟨c, memory⟩
      = some ((c.useState id initial).1, ⟨(c.useState id initial).2, memory⟩) :=
    hook_of_current current memory ambient "use_state" fun id c => c.useState id initial
  rw [called, useState_eq]

end

/-- A state that was made is behind the position of what follows. -/
theorem View.answer_useState (view : View μ) (c : Client P) (id : String) (initial : Value) :
    view.answer (c.useState id initial).2 id ((c.recordOf id).cursor + 1)
      = view.answer c id ((c.recordOf id).cursor + 1) := by
  have contexts : (c.useState id initial).2.contexts = c.contexts := by
    rw [(fills_useState c id initial).rest]
  apply View.answer_congr contexts
  intro j hj
  exact (stored_useState c id initial j).trans (if_neg (Nat.ne_of_lt hj))

/-- A view answers what it says, and would answer the same again. -/
theorem View.run_routine (calls : Calls P μ) (view : View μ) {c : Client P} (memory : μ)
    {id : String} {k : Nat} (current : c.current = some id) (at_k : (c.recordOf id).cursor = k) :
    ∃ c' memory', view.routine.run (calls.serve (some id)) ⟨c, memory⟩
        = some (view.answer c id k, ⟨c', memory'⟩) ∧
      Fills id k c c' ∧ view.answer c' id k = view.answer c id k := by
  induction view generalizing c memory k with
  | shows answer => exact ⟨c, memory, rfl, .refl c id k, rfl⟩
  | keep f next ih => exact ih (f memory) current at_k
  | context ambient name kind next ih =>
    obtain ⟨c', memory', ran, fills, again⟩ := ih (c.contextValue name kind) memory current at_k
    have served := serve_useContext calls memory current ambient name kind
    have value : c'.contextValue name kind = c.contextValue name kind := by
      rw [fills.rest]
      rfl
    refine ⟨c', memory', Act.bind_eq_some.2 ⟨_, _, served, ran⟩, fills, ?_⟩
    rw [answer, answer, value]
    exact again
  | state ambient initial next ih =>
    subst at_k
    let k := (c.recordOf id).cursor
    let c₁ := (c.useState id initial).2
    let given := handState id k initial ((c.stored id k).getD initial)
    have filled := fills_useState c id initial
    have current₁ : c₁.current = some id := by
      rw [show c₁ = _ from filled.rest]
      exact current
    have at_next : (c₁.recordOf id).cursor = k + 1 := by
      rw [recordOf_useState]
      rfl
    obtain ⟨c', memory', ran, fills, again⟩ := ih given memory current₁ at_next
    rw [View.answer_useState] at ran again
    have served := serve_useState calls memory current ambient initial
    have kept : c'.stored id k = some ((c.stored id k).getD initial) := by
      rw [fills.before k (Nat.lt_succ_self k)]
      exact (stored_useState c id initial k).trans (if_pos rfl)
    refine ⟨c', memory', Act.bind_eq_some.2 ⟨given, _, served, ran⟩, filled.trans fills, ?_⟩
    simp only [answer]
    rw [show c'.stored id (c.recordOf id).cursor = _ from kept]
    exact again

/-! ### Passes of components that are views -/

/-- The bodies of the program are views. -/
def Program.Draws (p : Program P μ) (view : String → P.Body → View μ) : Prop :=
  ∀ id body, p.render id body = (view id body).routine

theorem stored_beginPass (c : Client P) (id other : String) (k : Nat) :
    (c.beginPass id).2.stored other k = c.stored other k := by
  simp only [Client.stored, Client.recordOf, Client.beginPass, OrderedMap.get?_modify]
  split
  · cases c.records.get? other <;> rfl
  · rfl

theorem plainRecords_beginPass {c : Client P} (plain : PlainRecords c) (id : String) :
    PlainRecords (c.beginPass id).2 := by
  constructor
  · rw [Client.beginPass, OrderedMap.keys_modify]
    exact plain.keys
  · intro other r found
    rw [Client.beginPass, OrderedMap.get?_modify] at found
    split at found
    · obtain ⟨r', found', rfl⟩ := Option.map_eq_some_iff.1 found
      exact ⟨(plain.plain other r' found').effects, (plain.plain other r' found').states⟩
    · exact plain.plain other r found

theorem runPass_of_draws {p : Program P μ} {view : String → P.Body → View μ} (draws : p.Draws view)
    (depth : Nat) (c : Client P) (memory : μ) (id : String) (body : P.Body) :
    ∃ c' memory', (p.invoke (depth + 1)).runPass id body ⟨c, memory⟩
        = some ((view id body).answer c id 0, ⟨c', memory'⟩) ∧
      Fills id 0 c c' ∧ (view id body).answer c' id 0 = (view id body).answer c id 0 := by
  have rewound : ((c.beginPass id).2.recordOf id).cursor = 0 := by
    simp only [Client.recordOf, Client.beginPass, OrderedMap.get?_modify, beq_self_eq_true,
      if_true]
    cases c.records.get? id <;> rfl
  obtain ⟨c₁, memory', ran, fills, again⟩ := (view id body).run_routine (p.invoke depth) memory
    (c := (c.beginPass id).2) rfl rewound
  have begun : (view id body).answer (c.beginPass id).2 id 0 = (view id body).answer c id 0 :=
    View.answer_congr (by rfl) _ fun j _ => stored_beginPass c id id j
  have ended : (view id body).answer (c₁.endPass c.current) id 0
      = (view id body).answer c₁ id 0 :=
    View.answer_congr (by rfl) _ fun _ _ => rfl
  refine ⟨c₁.endPass c.current, memory', ?_, ?_, ?_⟩
  · rw [begun] at ran
    have rendered : (p.invoke (depth + 1)).render id body ⟨(c.beginPass id).2, memory⟩
        = some ((view id body).answer c id 0, ⟨c₁, memory'⟩) := by
      rw [← ran, ← draws]
      rfl
    refine Act.bind_eq_some.2 ⟨c.current, _, rfl, ?_⟩
    exact Act.bind_eq_some.2 ⟨_, _, rendered, rfl⟩
  · refine ⟨?_, ?_, fun j hj => absurd hj (Nat.not_lt_zero j), ?_⟩
    · rw [fills.rest]
      rfl
    · intro other ne
      have kept := fills.others other ne
      rw [Client.beginPass, OrderedMap.get?_modify, if_neg (by simpa using ne.symm)] at kept
      exact kept
    · intro plain
      have filled := fills.plain (plainRecords_beginPass plain id)
      exact ⟨filled.keys, filled.plain⟩
  · rw [ended, again, begun]

end PageTree.Live
