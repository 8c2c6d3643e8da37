/-
  PageTree/Proofs/Live/Failures.lean
  ==================================
  **Renders that fail.**

  A component that is rendered again may call some of the hooks it has called
  before and then fail.  Its hooks find their slots, so the only traces of the
  pass are the hook position and the effects that were queued.  The effects are
  dropped, and while no pass of the component is under way the position counts for
  nothing: the next pass starts over.  A pass that is under way goes on from the new
  position, though, without the effects it had queued, and who asks for the position
  is told the new one.

    * `failed_render_harmless`: a render that fails leaves everything else as it was;
      if no pass of the component is under way and nobody asks for the position, what
      comes after it goes as if it had not been.
    * `failed_render_felt`: the next pass runs other effects after a render that failed
      while a pass was under way, or if somebody has asked.
-/
import PageTree.Proofs.Live.Drifting

namespace PageTree.Live

variable {P : Callbacks} {μ α : Type}

/-! ### Effects that are queued -/

def Client.queue (c : Client P) (queued : List (PendingEffect P)) : Client P :=
  { c with pending := c.pending ++ queued }

theorem queue_nil (c : Client P) : c.queue [] = c := by
  rw [Client.queue, List.append_nil]

theorem queue_queue (c : Client P) (qs rs : List (PendingEffect P)) :
    (c.queue qs).queue rs = c.queue (qs ++ rs) := by
  simp only [Client.queue, List.append_assoc]

theorem pending_discardPending (c : Client P) (id : String) :
    (c.discardPending id).pending = c.pending.filter (·.component != id) := by
  simp only [Client.discardPending, Client.takePending, List.partition_eq_filter_filter]
  rfl

theorem discardPending_queue {c : Client P} {id : String} {qs : List (PendingEffect P)}
    (ours : ∀ q ∈ qs, q.component = id) : (c.queue qs).discardPending id = c.discardPending id := by
  have none_left : qs.filter (·.component != id) = [] := by
    simpa using ours
  have same : ((c.queue qs).discardPending id).pending = (c.discardPending id).pending := by
    rw [pending_discardPending, pending_discardPending, Client.queue, List.filter_append,
      none_left, List.append_nil]
  exact congrArg (fun pending => { c with pending }) same

/-- A hook that finds its slot queues an effect that is due. -/
theorem useEffect_of_due {c : Client P} {id : String} {r : HookRecord P} {deps : Option Deps}
    {slot : EffectSlot P} (found : c.records.get? id = some r) (e : P.Effect)
    (kept : r.effects.get? r.cursor = some slot) (due : Deps.isDue deps slot.deps = true) :
    c.useEffect id deps e = (c.seek id (r.cursor + 1)).queue [⟨id, r.cursor, e, deps⟩] := by
  have unchanged := modifyRecord_seek (k := r.cursor + 1)
    (f := fun r' => { r' with effects := r'.effects.insert r.cursor slot }) found
    (by simp only [Slots.insert_eq_self kept])
  simp only [Client.useEffect, claim_of_found found, recordOf_seek found, kept, Option.getD_some,
    unchanged, due]
  rfl

/-! ### Bodies that call hooks again -/

/-- From one position to another the body of a component calls hooks it has called
    before, looks at the client, works on its memory, and gives the answer. -/
inductive Revisits (c : Client P) (id : String) :
    Nat → μ → Routine P μ α → α → Nat → μ → Prop
  | done {k memory a} : Revisits c id k memory (.done a) a k memory
  | own {β k memory f a k' memory'} {next : β → Routine P μ α}
      (rest : Revisits c id k (f memory).2 (next (f memory).1) a k' memory') :
      Revisits c id k memory (.own f next) a k' memory'
  | call {β k memory r b k' a k'' memory'} {next : β → Routine P μ α}
      (answered : Request.reading c id k r = some (b, k'))
      (rest : Revisits c id k' memory (next b) a k'' memory') :
      Revisits c id k memory (.call r next) a k'' memory'
  | due {k memory ambient deps e slot a k' memory'}
      {next : Except Fault Unit → Routine P μ α}
      (kept : ((c.records.get? id).bind fun r => r.effects.get? k) = some slot)
      (due : Deps.isDue deps slot.deps = true)
      (rest : Revisits c id (k + 1) memory (next (.ok ())) a k' memory') :
      Revisits c id k memory (.call (.useEffect ambient deps e) next) a k' memory'

/-- Such a body moves the component to a position and queues effects of it. -/
theorem run_of_revisits (calls : Calls P μ) {c e : Client P} {memory memory' : μ} {id : String}
    {k k' : Nat} {m : Routine P μ α} {a : α} (revisits : Revisits c id k memory m a k' memory')
    (similar : Similar c e) (current : e.current = some id) (at_k : e.AtHook id k) :
    ∃ queued : List (PendingEffect P), (∀ q ∈ queued, q.component = id) ∧
      m.run (calls.serve (some id)) ⟨e, memory⟩
        = some (a, ⟨(e.seek id k').queue queued, memory'⟩) := by
  induction revisits generalizing e with
  | done =>
    refine ⟨[], by simp, ?_⟩
    rw [seek_of_atHook at_k, queue_nil]
    rfl
  | own rest ih => exact ih similar current at_k
  | @call β k memory r b k' a k'' memory' next answered rest ih =>
    rw [← similar.reading] at answered
    have served := serve_of_reading calls memory current at_k answered
    obtain ⟨queued, ours, ran⟩ := ih (similar.seek id k') current (atHook_seek e id k')
    rw [seek_seek] at ran
    exact ⟨queued, ours, Act.bind_eq_some.2 ⟨b, _, served, ran⟩⟩
  | @due k memory ambient deps effect slot a k' memory' next kept due rest ih =>
    have same := similar.found id (fun r => r.effects.get? k) fun _ => rfl
    obtain ⟨record, found, kept⟩ := Option.bind_eq_some_iff.1 (same.trans kept)
    obtain rfl := at_k record found
    have served : calls.serve (some id) (.useEffect ambient deps effect) ⟨e, memory⟩
        = some (.ok (), ⟨e.useEffect id deps effect, memory⟩) :=
      hook_of_current current memory ambient "use_effect" fun id c =>
        (.ok (), c.useEffect id deps effect)
    rw [useEffect_of_due found effect kept due] at served
    obtain ⟨queued, ours, ran⟩ :=
      ih (e := (e.seek id (record.cursor + 1)).queue [⟨id, record.cursor, effect, deps⟩])
        ⟨(similar.seek id _).slots, similar.contexts, similar.cells⟩ current
        (atHook_seek e id (record.cursor + 1))
    refine ⟨⟨id, record.cursor, effect, deps⟩ :: queued, by simpa using ours, ?_⟩
    have moved : (((e.seek id (record.cursor + 1)).queue
        [⟨id, record.cursor, effect, deps⟩]).seek id k').queue queued
        = (e.seek id k').queue (⟨id, record.cursor, effect, deps⟩ :: queued) := by
      have sought : ((e.seek id (record.cursor + 1)).queue
          [⟨id, record.cursor, effect, deps⟩]).seek id k'
          = (e.seek id k').queue [⟨id, record.cursor, effect, deps⟩] :=
        congrArg (fun d : Client P => d.queue [⟨id, record.cursor, effect, deps⟩])
          (seek_seek e id _ k')
      rw [sought, queue_queue]
      rfl
    rw [moved] at ran
    exact Act.bind_eq_some.2 ⟨.ok (), _, served, ran⟩

theorem runPass_of_revisits (p : Program P μ) (depth : Nat) {c e : Client P}
    {memory memory' : μ} {id : String} {body : P.Body} {k : Nat} {result : Except Fault String}
    (revisits : Revisits c id 0 memory (p.render id body) result k memory')
    (similar : Similar c e) :
    ∃ queued : List (PendingEffect P), (∀ q ∈ queued, q.component = id) ∧
      (p.invoke (depth + 1)).runPass id body ⟨e, memory⟩
        = some (result, ⟨(e.seek id k).queue queued, memory'⟩) := by
  have rewound : Similar c (e.beginPass id).2 := by
    have sought := similar.seek id 0
    exact ⟨sought.slots, similar.contexts, similar.cells⟩
  obtain ⟨queued, ours, ran⟩ :=
    run_of_revisits (p.invoke depth) revisits rewound rfl (atHook_seek e id 0)
  refine ⟨queued, ours, ?_⟩
  refine Act.bind_eq_some.2 ⟨e.current, _, rfl, ?_⟩
  refine Act.bind_eq_some.2 ⟨result, _, ran, ?_⟩
  have ended : (((e.beginPass id).2.seek id k).queue queued).endPass e.current
      = (e.seek id k).queue queued := by
    rw [← seek_seek e id 0 k]
    rfl
  exact congrArg (fun client => some (result, World.mk client memory')) ended

/-! ### The render fails -/

/-- A render fails that has no markup for its element, or no element. -/
theorem conclude_of_fails (calls : Calls P μ) {n : Nat} {i : Instance P}
    {result : Except Fault String} {w : World P μ}
    (fails : result.toOption = none ∨ w.client.document.has i.element = false) :
    ∃ fault, calls.conclude n i result w = some (.error fault, w.dropped n i) := by
  cases result with
  | error fault => exact ⟨fault, conclude_error calls n i fault w⟩
  | ok html =>
    have absent : ¬ w.client.document.has i.element = true := by
      rcases fails with silent | absent
      · cases silent
      · simp [absent]
    refine ⟨.noElement i.element, ?_⟩
    rw [conclude_ok, if_neg absent]

/-- The render of a component has failed and nothing but that component's waiting
    effects is gone.  Nothing was run. -/
structure Unharmed (n : Nat) (i : Instance P) (c e : Client P) : Prop extends Similar c e where
  document : e.document = c.document
  states : ∀ s, e.stateSlot? s = c.stateSlot? s
  effects : ∀ w, e.effectSlot? w = c.effectSlot? w
  listeners : e.listeners = c.listeners
  mounted : e.mounted = c.mounted
  stays : i.mounted = true ∧ e.instance? n = some i
  history : e.history = c.history
  waiting : e.pending = c.pending.filter (·.component != i.element)

/-- How things go on from the second client, compared with the first one.  A pass or a
    render of the component that comes at once is the same.  While no pass of the
    component is under way, and in a program that never asks for its hook position, all
    that goes on gives the same answers and leaves at most that position different,
    and the pass of the component that comes then is the same, with all it runs. -/
structure Continues (p : Program P μ) (id : String) (c e : Client P) : Prop where
  pass : ∀ (calls : Calls P μ) (body : P.Body) (memory : μ),
    calls.pass id body ⟨e, memory⟩ = calls.pass id body ⟨c, memory⟩
  render : ∀ (calls : Calls P μ) (n : Nat) (i : Instance P) (memory : μ), i.element = id →
    (c.beginRender n).1 = some i →
    calls.renderInstance n ⟨e, memory⟩ = calls.renderInstance n ⟨c, memory⟩
  onward : c.current ≠ some id → p.Sends (Request.Avoids id) →
    ∀ {α : Type} {rest : Act P μ α}, Elsewhere p id rest → ∀ memory : μ,
    Option.Rel (fun r r' => r.1 = r'.1 ∧ Adrift id r.2 r'.2) (rest ⟨c, memory⟩) (rest ⟨e, memory⟩)
  next : c.current ≠ some id → p.Sends (Request.Avoids id) →
    ∀ {α : Type} {rest : Act P μ α}, Elsewhere p id rest →
    ∀ (calls : Calls P μ) (body : P.Body) (memory : μ),
    (rest >>= fun _ => calls.pass id body) ⟨e, memory⟩
      = (rest >>= fun _ => calls.pass id body) ⟨c, memory⟩

/-- A hook position counts for nothing. -/
theorem continues_seek (p : Program P μ) (id : String) (c : Client P) (k : Nat) :
    Continues p id c (c.seek id k) where
  pass calls body memory := pass_seek calls body c id k memory
  render calls n i memory mine begun := by
    subst mine
    have begun' : ((c.seek i.element k).beginRender n).1 = some i :=
      ((Access.beginRender n).seek c i.element k).1.trans begun
    have entered : (c.seek i.element k).beginRender n
        = (some i, (c.beginRender n).2.seek i.element k) := by
      rw [(beginRender_of_begun begun').1, (beginRender_of_begun begun).1]
      rfl
    unfold Calls.renderInstance
    rw [Act.through_bind, Act.through_bind, begun, entered]
    show ((calls.runPass i.element i.body) ⟨_, memory⟩).bind _ = _
    rw [runPass_seek]
    rfl
  onward away avoids α rest elsewhere memory := elsewhere.tracks avoids _ _ (.away away)
  next away avoids α rest elsewhere calls body memory := by
    have related : Adrift id ⟨c, memory⟩ ⟨c.seek id k, memory⟩ := .away away
    have both := elsewhere.tracks avoids _ _ related
    show (rest ⟨c.seek id k, memory⟩).bind _ = (rest ⟨c, memory⟩).bind _
    generalize rest ⟨c, memory⟩ = o, rest ⟨c.seek id k, memory⟩ = o' at both
    cases both with
    | none => rfl
    | some both => exact both.2.pass_eq calls body

theorem mounted_of_begun {c : Client P} {n : Nat} {i : Instance P}
    (begun : (c.beginRender n).1 = some i) : i.mounted = true := by
  unfold Client.beginRender at begun
  split at begun
  · cases begun
  · split at begun
    · next j _ free =>
      obtain rfl : j = i := Option.some.inj begun
      simp only [Bool.and_eq_true] at free
      exact free.1.1
    · cases begun

/-- A position and waiting effects are all that is touched. -/
theorem unharmed_seek {c : Client P} {n : Nat} {i : Instance P}
    (begun : (c.beginRender n).1 = some i) (k : Nat) :
    Unharmed n i c ((c.discardPending i.element).seek i.element k) := by
  have rewound := (Similar.refl (c.discardPending i.element)).seek i.element k
  exact
    { slots := rewound.slots
      contexts := rfl
      cells := rfl
      document := rfl
      states := rewound.stateSlot?
      effects := effectSlot?_seek (c.discardPending i.element) i.element k
      listeners := rfl
      mounted := rfl
      stays := ⟨mounted_of_begun begun, (beginRender_of_begun begun).2.1⟩
      history := rfl
      waiting := pending_discardPending c i.element }

/-- The flag of the render is taken back, and what was queued is dropped. -/
theorem renderInstance_of_revisits {p : Program P μ} {c : Client P} {n k : Nat} {i : Instance P}
    {memory memory' : μ} {result : Except Fault String}
    (begun : (c.beginRender n).1 = some i)
    (revisits : Revisits c i.element 0 memory (p.render i.element i.body) result k memory')
    (fails : result.toOption = none ∨ c.document.has i.element = false) (depth : Nat) :
    ∃ fault, (p.invoke (depth + 1)).renderInstance n ⟨c, memory⟩
      = some (.error fault, ⟨(c.discardPending i.element).seek i.element k, memory'⟩) := by
  obtain ⟨entered, found, free⟩ := beginRender_of_begun begun
  have similar : Similar c (c.beginRender n).2 := by
    rw [entered]
    exact ⟨fun _ => rfl, rfl, rfl⟩
  obtain ⟨queued, ours, passed⟩ := runPass_of_revisits p depth revisits similar
  let shown := ((c.beginRender n).2.seek i.element k).queue queued
  have absent : shown.document.has i.element = c.document.has i.element := by
    show (c.beginRender n).2.document.has i.element = _
    rw [entered]
    rfl
  obtain ⟨fault, concluded⟩ := conclude_of_fails (p.invoke (depth + 1)) (n := n) (i := i)
    (w := ⟨shown, memory'⟩) (fails.imp_right absent.trans)
  have unflagged : shown.endRender n = (c.seek i.element k).queue queued := by
    show (((c.beginRender n).2.seek i.element k).queue queued).endRender n = _
    rw [entered]
    exact congrArg (fun d : Client P => d.queue queued) (endRender_seek found free i.element k)
  have ended : (shown.endRender n).discardPending i.element
      = (c.discardPending i.element).seek i.element k := by
    rw [unflagged, discardPending_queue ours]
    rfl
  have rendered : (p.invoke (depth + 1)).renderInstance n ⟨c, memory⟩
      = (p.invoke (depth + 1)).conclude n i result ⟨shown, memory'⟩ :=
    renderInstance_of_begun begun passed
  refine ⟨fault, ?_⟩
  rw [rendered, concluded]
  exact congrArg (fun client => some (Except.error fault, World.mk client memory')) ended

/-- **A failed render is harmless.**  A mounted component is rendered again, calls hooks
    it has called before and then fails, or its element is gone.  Nothing is run,
    the component stays mounted, and all is left as it was but for the hook position
    and the waiting effects of the component, of which none is left.  If no pass of the
    component is under way and nobody asks for the position, what comes then goes as
    it would have gone without the render, had these effects not been waiting. -/
theorem failed_render_harmless {p : Program P μ} {c : Client P} {n k : Nat} {i : Instance P}
    {memory memory' : μ} {result : Except Fault String}
    (begun : (c.beginRender n).1 = some i)
    (revisits : Revisits c i.element 0 memory (p.render i.element i.body) result k memory')
    (fails : result.toOption = none ∨ c.document.has i.element = false) (depth : Nat) :
    ∃ fault e, e = (c.discardPending i.element).seek i.element k ∧
      (p.invoke (depth + 1)).renderInstance n ⟨c, memory⟩ = some (.error fault, ⟨e, memory'⟩) ∧
      Unharmed n i c e ∧ Continues p i.element (c.discardPending i.element) e ∧
      ((∀ w ∈ c.pending, w.component ≠ i.element) → c.discardPending i.element = c) := by
  obtain ⟨fault, rendered⟩ := renderInstance_of_revisits begun revisits fails depth
  exact ⟨fault, _, rfl, rendered, unharmed_seek begun k, continues_seek p i.element _ k,
    discardPending_of_none_waits⟩

/-! ### A component that fails at times -/

abbrev flaky : Callbacks where
  Body := Unit
  Effect := Unit
  Cleanup := Unit
  Listener := Unit
  View := Unit

/-- A component with a state and an effect that is due in every pass.  In memory
    are whether it fails and how often the effect has run. -/
def flakyProgram : Program flaky (Bool × Nat) where
  render _ _ := do
    let _ ← Routine.request (.useState false (.int 0))
    let _ ← Routine.request (.useEffect false none ())
    if ← Routine.look (·.1) then return .error (.render "broken")
    else return .ok "up"
  effect _ := do
    Routine.change fun m => (m.1, m.2 + 1)
    return none
  cleanup _ := return ()
  listener _ := return ()
  view _ _ := return ""

/-- The document with the element of the component. -/
def flakyDocument : Document := Document.ofElements [("a", "")]

/-- The client after the component has been mounted. -/
def flakyClient : Client flaky :=
  ((flakyProgram.run 3 (Routine.request (.mount "a" ()))
    ⟨Client.new flakyDocument, (false, 0)⟩).map (·.2.client)).getD (Client.new flakyDocument)

theorem path_flakyClient : Path (Client.new flakyDocument) flakyClient := by
  unfold flakyClient
  cases ran : flakyProgram.run 3 (Routine.request (.mount "a" ()))
      ⟨Client.new flakyDocument, (false, 0)⟩ with
  | none => exact .refl _
  | some r => exact Path.of_run ran

/-- Wherever the hooks of the component find their slots, it fails after calling
    them. -/
theorem flaky_revisits {c : Client flaky} (runs : Nat)
    (state : (c.stateSlot? ⟨"a", 0, .int⟩).isSome = true)
    (effect : ((c.records.get? "a").bind fun r => r.effects.get? 1).isSome = true) :
    Revisits c "a" 0 (true, runs) (flakyProgram.render "a" ()) (.error (.render "broken")) 2
      (true, runs) := by
  obtain ⟨slot, kept⟩ := Option.isSome_iff_exists.1 state
  obtain ⟨slot', kept'⟩ := Option.isSome_iff_exists.1 effect
  refine .call (congrArg (Option.map _) kept) ?_
  refine .due kept' rfl ?_
  exact .own .done

theorem flakyProgram_avoids : flakyProgram.Sends (Request.Avoids "a") where
  render _ _ := by
    refine ⟨trivial, fun _ => ⟨trivial, fun _ broken => ?_⟩⟩
    cases broken <;> exact trivial
  effect _ := fun _ => trivial
  cleanup _ := trivial
  listener _ := trivial
  view _ _ := trivial

theorem flaky_render_harmless :
    ∃ i fault e, Path (Client.new flakyDocument) flakyClient ∧
      (flakyClient.beginRender 0).1 = some i ∧
      (flakyProgram.invoke 3).renderInstance 0 ⟨flakyClient, (true, 1)⟩
        = some (.error fault, ⟨e, (true, 1)⟩) ∧
      Unharmed 0 i flakyClient e ∧ Continues flakyProgram "a" flakyClient e ∧
      Option.Rel (fun r r' => r.1 = r'.1 ∧ Adrift "a" r.2 r'.2)
        (flakyProgram.run 3 (Routine.request (.notify "a")) ⟨flakyClient, (false, 1)⟩)
        (flakyProgram.run 3 (Routine.request (.notify "a")) ⟨e, (false, 1)⟩) := by
  have begins : (flakyClient.beginRender 0).1.isSome = true := by decide +kernel
  obtain ⟨i, begun⟩ := Option.isSome_iff_exists.1 begins
  have element : (flakyClient.beginRender 0).1.map (·.element) = some "a" := by decide +kernel
  rw [begun] at element
  have here : i.element = "a" := Option.some.inj element
  have revisits := flaky_revisits (c := flakyClient) 1 (by decide +kernel)
    (by decide +kernel)
  rw [← here] at revisits
  obtain ⟨fault, e, -, rendered, unharmed, continues, unqueued⟩ :=
    failed_render_harmless begun revisits (.inl rfl) 2
  have idle : flakyClient.pending.all (·.component != i.element) = true := by
    rw [here]
    decide +kernel
  rw [unqueued (by simpa using idle), here] at continues
  have away : flakyClient.current ≠ some "a" := by decide +kernel
  have notified : Elsewhere flakyProgram "a" (flakyProgram.run 3 (Routine.request (.notify "a"))) :=
    Elsewhere.run 3 ⟨trivial, fun _ => trivial⟩
  exact ⟨i, fault, e, path_flakyClient, begun, rendered, unharmed, continues,
    continues.onward away flakyProgram_avoids notified (false, 1)⟩

/-! ### A component that feels its failed render -/

abbrev wavering : Callbacks where
  Body := Bool
  Effect := String
  Cleanup := Unit
  Listener := Unit
  View := Unit

structure Wavering where
  /-- Whether the component is rendered again in between. -/
  told : Bool
  /-- What the first effect of the other body depends on. -/
  first : Option Deps := some (.on (.int 1))
  /-- What the second effect of the component depends on. -/
  second : Deps := .on (.int 1)
  /-- After how many hooks the component fails, if it does. -/
  fails : Option Nat := none
  /-- The effects that have run. -/
  ran : List String := []

/-- Has the component rendered again, which fails after some of its hooks. -/
def failAfter (hooks : Nat) : Routine wavering Wavering Unit := do
  if ← Routine.look (·.told) then
    Routine.change ({ · with fails := some hooks })
    Routine.request (.notify "a")
    Routine.change ({ · with fails := none })

/-- The body the component is mounted with calls two effects, and fails if it is to.
    Another body of the component has it rendered again between two effects. -/
def waveringProgram : Program wavering Wavering where
  render _ other := do
    if other then
      let _ ← Routine.request (.useEffect false (← Routine.look (·.first)) "g0")
      failAfter 2
      let _ ← Routine.request (.useEffect false (some (.on (.int 2))) "g1")
      return .ok "up"
    else
      let _ ← Routine.request (.useEffect false (some (.on (.int 1))) "e0")
      if (← Routine.look (·.fails)) = some 1 then return .error (.render "broken")
      let _ ← Routine.request (.useEffect false (some (← Routine.look (·.second))) "e1")
      if (← Routine.look (·.fails)) = some 2 then return .error (.render "broken")
      return .ok "up"
  effect name := do
    Routine.change fun m => { m with ran := m.ran ++ [name] }
    return none
  cleanup _ := return ()
  listener _ := return ()
  view _ _ := return ""

/-- The render fails while another pass of the component is under way. -/
def duringPass : Routine wavering Wavering Unit := do
  let _ ← Routine.request (.mount "a" false)
  let _ ← Routine.request (.pass "a" true)
  Routine.request (.notify "a")

/-- Somebody asks for the hook position after the render has failed, and goes by the
    answer. -/
def afterAsking : Routine wavering Wavering Unit := do
  let _ ← Routine.request (.mount "a" false)
  failAfter 1
  let state ← Routine.request (.stateOf "a")
  if state.cursor = 2 then Routine.change ({ · with second := .on (.int 2) })
  Routine.request (.notify "a")

/-- The effects that run in a course of action. -/
def ranIn (m : Routine wavering Wavering Unit) (start : Wavering) : Option (List String) :=
  (waveringProgram.run 4 m ⟨Client.new flakyDocument, start⟩).map (·.2.memory.ran)

/-- Without the render that fails, other effects run in the next pass: after a pass that
    was under way and had queued an effect, after one that had queued none, and if
    somebody has asked for the hook position. -/
theorem failed_render_felt :
    (ranIn duringPass { told := false, first := none } =
          some ["e0", "e1", "g0", "g1", "e0", "e1"] ∧
        ranIn duringPass { told := true, first := none } = some ["e0", "e1", "g1"]) ∧
      (ranIn duringPass { told := false } = some ["e0", "e1", "g1", "e1"] ∧
        ranIn duringPass { told := true } = some ["e0", "e1", "g1"]) ∧
      ranIn afterAsking { told := false } = some ["e0", "e1", "e1"] ∧
        ranIn afterAsking { told := true } = some ["e0", "e1"] := by
  refine ⟨⟨?_, ?_⟩, ⟨?_, ?_⟩, ?_, ?_⟩
  all_goals decide +kernel

end PageTree.Live
