/-
  PageTree/Proofs/Live/Operations.lean
  ====================================
  **Operations on components whose bodies are views.**

  A write of a state tells the component of the state, and a write of a context
  tells all components.  Whatever is told is rendered again, and to the others
  nothing has changed that their bodies look at.  An operation also ends with
  nothing under way, so the next one can be served.

    * `Served`: what an operation does.
    * `write_served`, `writeContext_served`: writes of states and contexts.
-/
import PageTree.Proofs.Live.Renders
import PageTree.Proofs.Live.Setters

namespace PageTree.Live

variable {P : Callbacks} {μ : Type}

/-! ### What becomes of components -/

/-- How a component comes out of an operation. -/
inductive Fate (view : String → P.Body → View μ) (c c' : Client P) (ws : List (String × String))
    (n : Nat) (i : Instance P) : Prop
  /-- Its body answers what it answered. -/
  | kept (alive : Alive c n i) (same : i.answer view c' = i.answer view c)
  /-- What its body answers was written. -/
  | redrawn (alive : Alive c n i)
      (written : ∀ html, i.answer view c' = .ok html → (i.element, html) ∈ ws)
  /-- It was mounted, and its first render was written. -/
  | new {html : String} (present : c.document.has i.element = true)
      (answered : i.answer view c' = .ok html) (written : (i.element, html) ∈ ws)

/-- What an operation does: it writes what components answer, and every component
    comes out with its markup. -/
structure Served (view : String → P.Body → View μ) (c c' : Client P)
    (ws : List (String × String)) : Prop where
  ready : Ready c'
  document : c'.document = c.document.writeAll ws
  writes : ∀ w ∈ ws, ∃ n i, Alive c' n i ∧ i.element = w.1 ∧ i.answer view c' = .ok w.2
  fates : ∀ n i, Alive c' n i → Fate view c c' ws n i

variable {view : String → P.Body → View μ}

theorem Served.refl {c : Client P} (ready : Ready c) : Served view c c [] :=
  ⟨ready, rfl, fun _ h => (nomatch h), fun _ _ alive => .kept alive rfl⟩

/-- What was written into the element of a component is what its body answers. -/
theorem Served.answer_of_written {c c' : Client P} {ws : List (String × String)}
    (served : Served view c c' ws) {n : Nat} {i : Instance P} (alive : Alive c' n i)
    {u : String × String} (written : u ∈ ws) (own : u.1 = i.element) :
    i.answer view c' = .ok u.2 := by
  obtain ⟨m, j, alive', element, answered⟩ := served.writes u written
  obtain rfl := served.ready.eq_of_element alive' alive (element.trans own)
  obtain rfl := Option.some.inj (alive'.1.symm.trans alive.1)
  exact answered

/-- Something has changed and components were rendered again.  Whoever was not
    rendered answers what it answered before. -/
theorem Served.of_told {c c₁ c' : Client P} {ws : List (String × String)} (ready : Ready c₁)
    (redrawn : Redrawn view c₁ c' ws) (document : c₁.document = c.document)
    (instances : c₁.instances = c.instances)
    (told : ∀ n i, Alive c₁ n i → i.answer view c₁ = i.answer view c ∨
      ∀ html, i.answer view c₁ = .ok html → (i.element, html) ∈ ws) : Served view c c' ws := by
  refine ⟨redrawn.ready ready, ?_, ?_, ?_⟩
  · rw [redrawn.rest, document]
  · intro w hw
    obtain ⟨n, i, alive, element, answered⟩ := redrawn.writes w hw
    refine ⟨n, i, redrawn.alive_iff.2 alive, element, ?_⟩
    rw [redrawn.answers n i alive, answered]
  · intro n i alive
    have alive₁ := redrawn.alive_iff.1 alive
    have before : Alive c n i := by
      rwa [Alive, Client.instance?, instances] at alive₁
    have answer := redrawn.answers n i alive₁
    rcases told n i alive₁ with same | written
    · exact .kept before (answer.trans same)
    · refine .redrawn before ?_
      rw [answer]
      exact written

/-! ### Who is told -/

theorem Ready.rerenders_of_listed {c : Client P} (ready : Ready c) {id : String} {k : Nat}
    {r : Reaction P} (listed : (k, r) ∈ c.listenersOf id) : ∃ n, r = .rerender n := by
  cases r with
  | call l => exact absurd listed (ready.unheard id k l)
  | rerender n => exact ⟨n, rfl⟩

theorem Ready.rerenders_of_reactionsOf {c : Client P} (ready : Ready c) (id : String) :
    ∀ r ∈ c.reactionsOf id, ∃ n, r = .rerender n := by
  intro r hr
  obtain ⟨⟨k, r⟩, listed, rfl⟩ := List.mem_map.1 hr
  exact ready.rerenders_of_listed listed

theorem Ready.rerenders_of_allReactions {c : Client P} (ready : Ready c) :
    ∀ r ∈ c.allReactions, ∃ n, r = .rerender n := by
  intro r hr
  obtain ⟨⟨id, ls⟩, entry, hr⟩ := List.mem_flatMap.1 hr
  obtain ⟨⟨k, r⟩, listed, rfl⟩ := List.mem_map.1 hr
  have found : c.listenersOf id = ls := by
    rw [Client.listenersOf, OrderedMap.get?_of_mem ready.listenerKeys entry, Option.getD_some]
  exact ready.rerenders_of_listed (found ▸ listed)

theorem Sound.mem_reactionsOf {c : Client P} (sound : Sound c) {n : Nat} {i : Instance P}
    (alive : Alive c n i) : .rerender n ∈ c.reactionsOf i.element := by
  obtain ⟨l, listed⟩ := sound.listed alive
  exact List.mem_map.2 ⟨_, listed, rfl⟩

theorem Sound.mem_allReactions {c : Client P} (sound : Sound c) {n : Nat} {i : Instance P}
    (alive : Alive c n i) : .rerender n ∈ c.allReactions := by
  obtain ⟨l, listed⟩ := sound.listed alive
  rw [Client.listenersOf] at listed
  cases found : c.listeners.get? i.element with
  | none =>
    rw [found] at listed
    cases listed
  | some ls =>
    rw [found] at listed
    exact List.mem_flatMap.2 ⟨_, OrderedMap.mem_of_get? found, List.mem_map.2 ⟨_, listed, rfl⟩⟩

/-! ### Writes of states -/

theorem store_cases (c : Client P) (s : Setter) (v : Value) :
    c.store s v = (none, c) ∨ ∃ slot, c.stateSlot? s = some slot ∧
      c.store s v = (some (slot.listeners.map (·.2)),
        c.modifyState s fun slot => { slot with value := v }) := by
  unfold Client.store
  cases found : c.stateSlot? s with
  | none => exact .inl rfl
  | some slot =>
    dsimp only
    split
    · exact .inl rfl
    · exact .inr ⟨slot, rfl, rfl⟩

theorem PlainRecords.modifyState {c : Client P} (plain : PlainRecords c) (s : Setter)
    (v : Value) : PlainRecords (c.modifyState s fun slot => { slot with value := v }) := by
  constructor
  · rw [Client.modifyState, Client.modifyRecord, OrderedMap.keys_modify]
    exact plain.keys
  · intro id r found
    rw [Client.modifyState, Client.modifyRecord, OrderedMap.get?_modify] at found
    split at found
    · obtain ⟨r, old, rfl⟩ := Option.map_eq_some_iff.1 found
      have before := plain.plain id r old
      refine ⟨before.effects, ?_⟩
      intro k slot kept
      rw [Slots.get?_modify] at kept
      split at kept
      · obtain ⟨old, there, rfl⟩ := Option.map_eq_some_iff.1 kept
        exact before.states k old there
      · exact before.states k slot kept
    · exact plain.plain id r found

variable {p : Program P μ} (draws : p.Draws view) (depth : Nat) {c : Client P} (ready : Ready c)
  (memory : μ)

include draws ready

theorem write_served (s : Setter) (v : Value) :
    ∃ b c' memory' ws, (p.invoke (depth + 1)).write s v ⟨c, memory⟩ = some (b, ⟨c', memory'⟩) ∧
      Served view c c' ws := by
  rcases store_cases c s v with unchanged | ⟨slot, found, changed⟩
  · exact ⟨false, c, memory, [], write_of_store_none unchanged, .refl ready⟩
  let c₁ := c.modifyState s fun slot => { slot with value := v }
  have ready₁ : Ready c₁ :=
    ready.congr rfl rfl rfl rfl rfl rfl (ready.toPlainRecords.modifyState s v)
  obtain ⟨c', memory', ws, told, redrawn, written⟩ := forM_react_of_ready draws depth ready₁ memory
    (ready₁.rerenders_of_reactionsOf s.component)
  have nobody : slot.listeners.map (·.2) = [] := by
    obtain ⟨r, record, kept⟩ := Option.bind_eq_some_iff.1 found
    rw [(ready.plain _ r record).states _ slot kept, List.map_nil]
  refine ⟨true, c', memory', ws, ?_, Served.of_told ready₁ redrawn rfl rfl ?_⟩
  · unfold Calls.write
    rw [Act.through_bind, changed, nobody]
    exact Act.bind_eq_some.2 ⟨(), _, rfl, Act.bind_eq_some.2 ⟨(), _, told, rfl⟩⟩
  · intro n i alive
    by_cases own : i.element = s.component
    · refine .inr fun html answered => ?_
      have listed := ready₁.mem_reactionsOf alive
      rw [own] at listed
      exact written n i html listed alive answered
    · refine .inl (Instance.answer_congr rfl ?_)
      exact (OrderedMap.get?_modify ..).trans (if_neg (by simpa using Ne.symm own))

/-! ### Writes of contexts -/

theorem writeContext_served (h : ContextHandle) (v : Value) :
    ∃ a c' memory' ws, (p.invoke (depth + 1)).writeContext h v ⟨c, memory⟩
        = some (a, ⟨c', memory'⟩) ∧ Served view c c' ws := by
  have refused {e : Fault} (failed : c.writeContext h v = (.error e, c)) :
      (p.invoke (depth + 1)).writeContext h v ⟨c, memory⟩ = some (.error e, ⟨c, memory⟩) := by
    unfold Calls.writeContext
    rw [Act.through_bind, failed]
    rfl
  cases value : c.contextValue h.id h.kind with
  | error e =>
    have failed : c.writeContext h v = (.error e, c) := by
      rw [Client.writeContext, value]
    exact ⟨_, c, memory, [], refused failed, .refl ready⟩
  | ok old =>
    by_cases kind : v.kind = h.kind
    swap
    · have failed : c.writeContext h v = (.error (.contextKind h.id), c) := by
        simp only [Client.writeContext, value, if_neg kind]
      exact ⟨_, c, memory, [], refused failed, .refl ready⟩
    let c₁ : Client P := { c with contexts := c.contexts.insert h.id v }
    have written : c.writeContext h v = (.ok (), c₁) := by
      simp only [Client.writeContext, value, if_pos kind, c₁]
    have ready₁ : Ready c₁ :=
      ready.congr rfl rfl rfl rfl rfl rfl ⟨ready.keys, ready.plain⟩
    obtain ⟨c', memory', ws, told, redrawn, shown⟩ := forM_react_of_ready draws depth ready₁
      memory ready₁.rerenders_of_allReactions
    refine ⟨.ok (), c', memory', ws, ?_, Served.of_told ready₁ redrawn rfl rfl ?_⟩
    · unfold Calls.writeContext
      rw [Act.through_bind, written]
      exact Act.bind_eq_some.2 ⟨(), _, told, rfl⟩
    · intro n i alive
      exact .inr fun html answered => shown n i html (ready₁.mem_allReactions alive) alive answered

end PageTree.Live
