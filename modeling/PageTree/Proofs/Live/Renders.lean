/-
  PageTree/Proofs/Live/Renders.lean
  =================================
  **Rendering components whose bodies are views.**

  When nothing is under way, no effect waits and nobody listens but the mounted
  components.  A render of one of them then makes the states that its body asks
  for and writes what the body answers, if it answers.  No other component is
  concerned, and the body goes on answering what it answered.

    * `renderInstance_of_alive`: a render of a mounted component.
    * `forM_react_of_ready`: renders of one component after another.
-/
import PageTree.Proofs.Live.Placement
import PageTree.Proofs.Live.Views

namespace PageTree.Live

variable {P : Callbacks} {μ : Type}

/-! ### When nothing is under way -/

structure Ready (c : Client P) : Prop extends Placed c, PlainRecords c where
  idle : c.pending = []
  unheard : ∀ id k l, (k, .call l) ∉ c.listenersOf id
  resting : ∀ n i, c.instance? n = some i → i.rendering = false
  occupied : ∀ id n, c.mounted.get? id = some n → ∃ i, Alive c n i ∧ i.element = id

/-- The tables of mounted components are all that placement depends on. -/
theorem Placed.congr {c c' : Client P} (placed : Placed c) (instances : c'.instances = c.instances)
    (mounted : c'.mounted = c.mounted) (listeners : c'.listeners = c.listeners)
    (next : c'.nextListener = c.nextListener) (kept : c'.abandoned = c.abandoned) : Placed c' := by
  obtain ⟨⟩ := c
  obtain ⟨⟩ := c'
  dsimp only at instances mounted listeners next kept
  subst instances mounted listeners next kept
  exact ⟨⟨placed.mountedKeys, placed.listenerKeys, placed.stored, placed.below, placed.numbered,
    placed.distinct⟩, ⟨placed.kept, placed.inTable, placed.registered, placed.alone⟩,
    placed.subscribed⟩

theorem Ready.congr {c c' : Client P} (ready : Ready c) (instances : c'.instances = c.instances)
    (mounted : c'.mounted = c.mounted) (listeners : c'.listeners = c.listeners)
    (next : c'.nextListener = c.nextListener) (kept : c'.abandoned = c.abandoned)
    (pending : c'.pending = c.pending) (plain : PlainRecords c') : Ready c' := by
  refine ⟨ready.toPlaced.congr instances mounted listeners next kept, plain, ?_, ?_, ?_, ?_⟩
  · rw [pending]
    exact ready.idle
  · intro id k l
    rw [Client.listenersOf, listeners]
    exact ready.unheard id k l
  · intro n i found
    rw [Client.instance?, instances] at found
    exact ready.resting n i found
  · intro id n stored
    rw [mounted] at stored
    obtain ⟨i, alive, element⟩ := ready.occupied id n stored
    refine ⟨i, ?_, element⟩
    rwa [Alive, Client.instance?, instances]

/-- No two components are mounted on one element. -/
theorem Sound.eq_of_element {c : Client P} (sound : Sound c) {m n : Nat} {i j : Instance P}
    (hi : Alive c m i) (hj : Alive c n j) (same : i.element = j.element) : m = n := by
  have stored := sound.inTable m i hi
  rw [same, sound.inTable n j hj] at stored
  exact (Option.some.inj stored).symm

/-! ### What components answer -/

variable (view : String → P.Body → View μ)

/-- What the body of an instance answers. -/
def Instance.answer (i : Instance P) (c : Client P) : Except Fault String :=
  (view i.element i.body).answer c i.element 0

theorem Instance.answer_congr {view : String → P.Body → View μ} {i : Instance P}
    {c c' : Client P} (contexts : c'.contexts = c.contexts)
    (records : c'.records.get? i.element = c.records.get? i.element) :
    i.answer view c' = i.answer view c := by
  apply View.answer_congr contexts
  intro j _
  rw [Client.stored, Client.stored, Client.recordOf, Client.recordOf, records]
  cases c.records.get? i.element <;> rfl

/-- Components were rendered again, and what they answered was written. -/
structure Redrawn (c c' : Client P) (ws : List (String × String)) : Prop where
  rest : c' = { c with
    records := c'.records
    nextRecord := c'.nextRecord
    document := c.document.writeAll ws }
  answers : ∀ n i, Alive c n i → i.answer view c' = i.answer view c
  writes : ∀ w ∈ ws, ∃ n i, Alive c n i ∧ i.element = w.1 ∧ i.answer view c = .ok w.2
  plain : PlainRecords c → PlainRecords c'

namespace Redrawn

variable {view} {c c' c'' : Client P} {ws ws' : List (String × String)}

theorem refl (c : Client P) : Redrawn view c c [] :=
  ⟨rfl, fun _ _ _ => rfl, fun _ h => (nomatch h), fun plain => plain⟩

theorem alive_iff (h : Redrawn view c c' ws) {n : Nat} {i : Instance P} :
    Alive c' n i ↔ Alive c n i := by
  rw [Alive, Alive, Client.instance?, Client.instance?, h.rest]

theorem trans (h : Redrawn view c c' ws) (h' : Redrawn view c' c'' ws') :
    Redrawn view c c'' (ws ++ ws') := by
  refine ⟨?_, ?_, ?_, fun plain => h'.plain (h.plain plain)⟩
  · have document : c'.document = c.document.writeAll ws := by rw [h.rest]
    rw [h'.rest, document, h.rest, Document.writeAll, Document.writeAll, Document.writeAll,
      List.foldl_append]
  · intro n i alive
    rw [h'.answers n i (h.alive_iff.2 alive), h.answers n i alive]
  · intro w hw
    rcases List.mem_append.1 hw with hw | hw
    · exact h.writes w hw
    · obtain ⟨n, i, alive, element, answered⟩ := h'.writes w hw
      have before := h.alive_iff.1 alive
      refine ⟨n, i, before, element, ?_⟩
      rw [← h.answers n i before, answered]

theorem ready (h : Redrawn view c c' ws) (ready : Ready c) : Ready c' := by
  refine ready.congr ?_ ?_ ?_ ?_ ?_ ?_ (h.plain ready.toPlainRecords) <;> rw [h.rest]

end Redrawn

/-! ### A render -/

theorem beginRender_of_alive {c : Client P} (ready : Ready c) {n : Nat} {i : Instance P}
    (alive : Alive c n i) :
    c.beginRender n = (some i, c.modifyInstance n fun i => { i with rendering := true }) := by
  have reachable : c.isReachable n i = true := by
    simp [Client.isReachable, ready.inTable n i alive]
  simp [Client.beginRender, alive.1, alive.2, ready.resting n i alive.1, reachable]

variable {view} {p : Program P μ} (draws : p.Draws view) (depth : Nat)

include draws

theorem renderInstance_of_alive {c : Client P} (ready : Ready c) (memory : μ) {n : Nat}
    {i : Instance P} (alive : Alive c n i) :
    ∃ c' memory', (p.invoke (depth + 1)).renderInstance n ⟨c, memory⟩
        = some (i.outcome (c.document.has i.element) (i.answer view c), ⟨c', memory'⟩) ∧
      Redrawn view c c' ((i.answer view c).toOption.toList.map (i.element, ·)) := by
  have begun := beginRender_of_alive ready alive
  let b := c.modifyInstance n fun i => { i with rendering := true }
  obtain ⟨e, memory', answered, fills, again⟩ := runPass_of_draws draws depth b memory i.element
    i.body
  have same : (view i.element i.body).answer b i.element 0 = i.answer view c :=
    Instance.answer_congr (by rfl) (by rfl)
  rw [same] at answered again
  have rendered : (p.invoke (depth + 1)).renderInstance n ⟨c, memory⟩
      = (p.invoke (depth + 1)).conclude n i (i.answer view c) ⟨e, memory'⟩ := by
    apply renderInstance_of_begun
    · rw [begun]
    · rw [begun]
      exact answered
  have pending : e.pending = [] := by
    rw [fills.rest]
    exact ready.idle
  have document : e.document = c.document := by
    rw [fills.rest]
    rfl
  have contexts : e.contexts = c.contexts := by
    rw [fills.rest]
    rfl
  rw [conclude_of_settled _ _ _ (by simp [pending]), document] at rendered
  refine ⟨_, memory', rendered, ?_, ?_, ?_, ?_⟩
  · -- the flag of the render is as before
    have instances : (e.endRender n).instances = c.instances := by
      rw [fills.rest]
      exact modify_rendering alive.1 (ready.resting n i alive.1)
    have ended : e.endRender n = { e with instances := c.instances } :=
      congrArg (fun instances => { e with instances }) instances
    rw [ended, fills.rest]
    rfl
  · intro m j other
    by_cases here : j.element = i.element
    · obtain rfl := ready.eq_of_element other alive here
      obtain rfl := Option.some.inj (other.1.symm.trans alive.1)
      rw [← again]
      exact Instance.answer_congr (by rfl) (by rfl)
    · exact Instance.answer_congr contexts (fills.others _ here)
  · intro w hw
    obtain ⟨html, answer, rfl⟩ := List.mem_map.1 hw
    refine ⟨n, i, alive, rfl, ?_⟩
    exact eq_ok_of_toOption (by simpa using answer)
  · intro plain
    have filled := fills.plain ⟨plain.keys, plain.plain⟩
    exact ⟨filled.keys, filled.plain⟩

/-! ### Renders one after another -/

/-- A listener that renders an instance again does nothing if the instance is
    stopped, and else it renders the component. -/
theorem react_of_ready {c : Client P} (ready : Ready c) (memory : μ) (n : Nat) :
    ∃ c' memory' ws, (p.invoke (depth + 1)).react (.rerender n) ⟨c, memory⟩
        = some ((), ⟨c', memory'⟩) ∧
      Redrawn view c c' ws ∧
      ∀ i html, Alive c n i → i.answer view c = .ok html → (i.element, html) ∈ ws := by
  by_cases alive : ∃ i, Alive c n i
  · obtain ⟨i, alive⟩ := alive
    obtain ⟨c', memory', rendered, redrawn⟩ :=
      renderInstance_of_alive draws depth ready memory alive
    refine ⟨c', memory', _, Act.bind_eq_some.2 ⟨_, _, rendered, rfl⟩, redrawn, ?_⟩
    intro j html other answered
    obtain rfl := Option.some.inj (other.1.symm.trans alive.1)
    simp [answered, Except.toOption]
  · have begins : c.beginRender n = (none, c) := by
      apply beginRender_of_none
      by_contra begins
      obtain ⟨i, begun⟩ := Option.ne_none_iff_exists'.1 begins
      obtain ⟨_, found, _⟩ := beginRender_of_begun begun
      refine alive ⟨i, found, ?_⟩
      by_contra stopped
      simp [Client.beginRender, found, stopped] at begun
    have nothing : (p.invoke (depth + 1)).renderInstance n ⟨c, memory⟩
        = some (.ok (), ⟨c, memory⟩) := renderInstance_of_not_begun begins
    refine ⟨c, memory, [], Act.bind_eq_some.2 ⟨_, _, nothing, rfl⟩, .refl c, ?_⟩
    intro i html other
    exact absurd ⟨i, other⟩ alive

theorem forM_react_of_ready {rs : List (Reaction P)} {c : Client P} (ready : Ready c)
    (memory : μ) (rerenders : ∀ r ∈ rs, ∃ n, r = .rerender n) :
    ∃ c' memory' ws, rs.forM (p.invoke (depth + 1)).react ⟨c, memory⟩
        = some ((), ⟨c', memory'⟩) ∧
      Redrawn view c c' ws ∧ ∀ n i html, .rerender n ∈ rs → Alive c n i →
        i.answer view c = .ok html → (i.element, html) ∈ ws := by
  induction rs generalizing c memory with
  | nil => exact ⟨c, memory, [], rfl, .refl c, fun _ _ _ h => (nomatch h)⟩
  | cons r rs ih =>
    obtain ⟨⟨m, rfl⟩, rest⟩ := List.forall_mem_cons.1 rerenders
    obtain ⟨c₁, memory₁, ws, reacted, redrawn, written⟩ :=
      react_of_ready draws depth ready memory m
    obtain ⟨c', memory', ws', ran, redrawn', written'⟩ := ih (redrawn.ready ready) memory₁ rest
    refine ⟨c', memory', ws ++ ws', Act.bind_eq_some.2 ⟨(), _, reacted, ran⟩,
      redrawn.trans redrawn', ?_⟩
    intro n i html listed alive answered
    rw [List.mem_append]
    rcases List.mem_cons.1 listed with same | listed
    · cases same
      exact .inl (written i html alive answered)
    · refine .inr (written' n i html listed (redrawn.alive_iff.2 alive) ?_)
      rw [redrawn.answers n i alive, answered]

end PageTree.Live
