/-
  PageTree/Proofs/Live/Contexts.lean
  ==================================
  **Contexts keep the kinds of their values.**

  What calls to contexts answer and what they leave behind is that of a store that
  looks at the kinds of its values.  Besides, a write tells everybody who listens to
  a component, and nothing else of the client is touched.

    * `Path.contextKeys`: no context stands in the table twice;
    * `nodup_audience`, `mem_audience`: who is told of a write;
    * `exists_carried`: a call does with the contexts what it does with the store,
      and a write tells everybody once;
    * `contexts_keep_kinds`: so it is in every run of calls.
-/
import PageTree.Proofs.Live.Holdings
import PageTree.Proofs.Live.Notices

namespace PageTree.Live

variable {P : Callbacks} {μ α : Type}

/-! ### The table of contexts -/

/-- The values that the contexts hold. -/
def Client.held (c : Client P) : Holdings := c.contexts.get?

/-- What a small change does to the contexts. -/
theorem Change.contexts {c c' : Client P} (h : Change c c') :
    c'.contexts = c.contexts ∨ (∃ id v, c'.contexts = c.contexts.insert id v) ∨
      ∃ id, c'.contexts = c.contexts.erase id := by
  cases h with
  | createContext id v => exact .inr (.inl ⟨id, _, rfl⟩)
  | deleteContext id => exact .inr (.inr ⟨id, rfl⟩)
  | writeContext h v =>
    unfold Client.writeContext
    split
    · exact .inl rfl
    · split
      · exact .inr (.inl ⟨h.id, v, rfl⟩)
      · exact .inl rfl
  | useState id v =>
    unfold Client.useState
    dsimp only
    split <;> exact .inl rfl
  | useCell id v =>
    unfold Client.useCell
    dsimp only
    split
    · split <;> exact .inl rfl
    · exact .inl rfl
  | useEffect id deps e =>
    unfold Client.useEffect
    dsimp only
    split <;> exact .inl rfl
  | store s v =>
    unfold Client.store
    split
    · exact .inl rfl
    · split <;> exact .inl rfl
  | writeCell r v =>
    unfold Client.writeCell
    split <;> exact .inl rfl
  | findRoute id path =>
    unfold Client.findRoute
    split <;> exact .inl rfl
  | beginRender n =>
    rcases beginRender_eq c n with same | begun
    · exact .inl (by rw [same])
    · exact .inl (by rw [begun]; rfl)
  | endSubscription n =>
    rcases endSubscription_eq c n with same | ⟨i, l, _, _, ended⟩
    · exact .inl (by rw [same])
    · exact .inl (by rw [ended]; rfl)
  | _ => exact .inl rfl

theorem Change.contextKeys {c c' : Client P} (h : Change c c') (keys : c.contexts.keys.Nodup) :
    c'.contexts.keys.Nodup := by
  rcases h.contexts with same | ⟨id, v, put⟩ | ⟨id, erased⟩
  · rwa [same]
  · rw [put]
    exact OrderedMap.nodup_keys_insert keys id v
  · rw [erased]
    exact OrderedMap.nodup_keys_erase keys id

theorem Take.contextKeys {take : Client P → List (Due P) × Client P} (h : Take take) {c : Client P}
    (keys : c.contexts.keys.Nodup) : (take c).2.contexts.keys.Nodup := by
  cases h with
  | takeCleanup e => exact keys
  | settleEffect e k =>
    simp only [Client.settleEffect]
    split <;> exact keys
  | forget id => exact keys
  | detach n i =>
    simp only [Client.detach]
    split <;> exact keys
  | clear => exact List.nodup_nil

/-- No context stands in the table twice. -/
theorem Path.contextKeys {document : Document} {c : Client P}
    (h : Path (Client.new document) c) : c.contexts.keys.Nodup := by
  induction h with
  | refl => exact List.nodup_nil
  | change _ step ih => exact step.contextKeys ih
  | take _ taken ih => exact taken.contextKeys ih
  | settle _ ih =>
    unfold Client.settle
    split
    · exact List.nodup_nil
    · exact ih
  | _ => assumption

/-! ### Who is told -/

/-- The listeners of all components that are callbacks, each with its component and
    its number. -/
def Client.audience (c : Client P) : List ((String × Nat) × P.Listener) :=
  c.listeners.entries.flatMap fun (id, ls) => ls.filterMap fun
    | (n, .call l) => some ((id, n), l)
    | (_, .rerender _) => none

theorem mem_audience {c : Client P} (keys : c.listeners.keys.Nodup) {id : String} {n : Nat}
    {l : P.Listener} : ((id, n), l) ∈ c.audience ↔ (n, .call l) ∈ c.listenersOf id := by
  rw [Client.audience, List.mem_flatMap]
  constructor
  · rintro ⟨⟨other, ls⟩, listed, here⟩
    obtain ⟨⟨m, r⟩, among, named⟩ := List.mem_filterMap.1 here
    cases r with
    | rerender => cases named
    | call l' =>
      cases named
      rw [Client.listenersOf, OrderedMap.get?_of_mem keys listed]
      exact among
  · intro listening
    cases found : c.listeners.get? id with
    | none =>
      rw [Client.listenersOf, found] at listening
      cases listening
    | some ls =>
      rw [Client.listenersOf, found] at listening
      exact ⟨(id, ls), OrderedMap.mem_of_get? found, List.mem_filterMap.2 ⟨_, listening, rfl⟩⟩

/-- Everybody stands there once. -/
theorem nodup_audience {c : Client P} (keys : c.listeners.keys.Nodup) (inLine : InLine c) :
    (c.audience.map (·.1)).Nodup := by
  have named {e : String × List (Nat × Reaction P)} {k : String × Nat}
      (h : k ∈ (e.2.filterMap fun
        | (n, .call l) => some ((e.1, n), l)
        | (_, .rerender _) => none).map (·.1)) : k.1 = e.1 := by
    obtain ⟨a, ha, rfl⟩ := List.mem_map.1 h
    obtain ⟨⟨m, r⟩, _, here⟩ := List.mem_filterMap.1 ha
    cases r <;> cases here
    rfl
  rw [Client.audience, List.map_flatMap, List.nodup_flatMap]
  constructor
  · rintro ⟨id, ls⟩ listed
    -- within a component the numbers ascend
    have ascending : (ls.map (·.1)).Nodup := by
      have here : c.listenersOf id = ls := by
        rw [Client.listenersOf, OrderedMap.get?_of_mem keys listed]
        rfl
      exact here ▸ (inLine id).sorted.imp (fun lt => lt.ne)
    clear listed
    induction ls with
    | nil => exact List.nodup_nil
    | cons a ls ih =>
      obtain ⟨n, r⟩ := a
      obtain ⟨fresh, rest⟩ := List.nodup_cons.1 ascending
      cases r with
      | rerender => exact ih rest
      | call l =>
        refine List.nodup_cons.2 ⟨?_, ih rest⟩
        intro again
        obtain ⟨b, hb, same⟩ := List.mem_map.1 again
        obtain ⟨⟨m, r⟩, among, named⟩ := List.mem_filterMap.1 hb
        cases r <;> cases named
        cases same
        exact fresh (List.mem_map.2 ⟨_, among, rfl⟩)
  · have apart := List.pairwise_map.1 keys
    refine apart.imp fun {e e'} ne k h h' => ne ?_
    exact (named h).symm.trans (named h')

theorem allReactions_eq {c : Client P} (callers : ∀ r ∈ c.allReactions, ∃ l, r = .call l) :
    c.allReactions = (c.audience.map (·.2)).map .call := by
  rw [Client.allReactions] at callers ⊢
  rw [Client.audience, List.map_flatMap, List.map_flatMap]
  apply List.flatMap_congr
  rintro ⟨id, ls⟩ listed
  have here : ∀ r ∈ ls.map (·.2), ∃ l, r = Reaction.call l :=
    fun r hr => callers r (List.mem_flatMap.2 ⟨(id, ls), listed, hr⟩)
  clear callers listed
  induction ls with
  | nil => rfl
  | cons a ls ih =>
    obtain ⟨n, r⟩ := a
    obtain ⟨⟨l, rfl⟩, rest⟩ := List.forall_mem_cons.1 here
    exact congrArg (_ :: ·) (ih rest)

/-! ### What a call does -/

/-- A write that finds a value of its kind puts the new one in its place and tells
    everybody. -/
theorem writeContext_tells {p : Program P μ} (silent : ∀ l, (p.listener l).Silent) (depth : Nat)
    {h : ContextHandle} {v : Value} (kind : v.kind = h.kind) {c : Client P} {x : Value}
    (looked : c.held.look h.id h.kind = .ok x) (callers : ∀ r ∈ c.allReactions, ∃ l, r = .call l)
    (memory : μ) :
    ∃ memory', p.tellAlone (c.audience.map (·.2)) memory = some ((), memory') ∧
      (p.invoke (depth + 1)).writeContext h v ⟨c, memory⟩
        = some (.ok (), ⟨{ c with contexts := c.contexts.insert h.id v }, memory'⟩) := by
  let c' : Client P := { c with contexts := c.contexts.insert h.id v }
  have found : c.contextValue h.id h.kind = .ok x := looked
  have stored : c.writeContext h v = (.ok (), c') := by
    simp only [Client.writeContext, found, if_pos kind]
    rfl
  obtain ⟨memory', alone, told⟩ := tell_alone silent depth (c.audience.map (·.2)) c' memory
  have notified : (p.invoke (depth + 1)).notifyAll ⟨c', memory⟩ = some ((), ⟨c', memory'⟩) := by
    have reactions : c'.allReactions = (c.audience.map (·.2)).map .call := allReactions_eq callers
    rw [Calls.notifyAll, Act.look_bind, reactions, forM_react_call]
    exact told
  refine ⟨memory', alone, ?_⟩
  rw [Calls.writeContext, Act.through_bind, stored]
  exact bind_of_eq_some notified

/-- A write that does not find a value of its kind does nothing. -/
theorem writeContext_of_error {calls : Calls P μ} {h : ContextHandle} {v : Value} {e : Fault}
    {w : World P μ} (looked : w.client.held.look h.id h.kind = .error e) :
    calls.writeContext h v w = some (.error e, w) := by
  have found : w.client.contextValue h.id h.kind = .error e := looked
  have refused : w.client.writeContext h v = (.error e, w.client) := by
    simp only [Client.writeContext, found]
  rw [Calls.writeContext, Act.through_bind, refused]
  rfl

/-- What a call does: with the contexts what it does with the store, and with the
    rest of the client nothing.  If it replaces a value, everybody is told once;
    else nothing runs. -/
structure ContextCall.Does (p : Program P μ) (w : World P μ) (call : ContextCall)
    (w' : World P μ) : Prop where
  held : w'.client.held = (call.on w.client.held).2
  elsewhere : w'.client = { w.client with contexts := w'.client.contexts }
  failed : call.Succeeds (call.on w.client.held).1 = false → w' = w
  told : call.Replaces = true → call.Succeeds (call.on w.client.held).1 = true →
    p.tellAlone (w.client.audience.map (·.2)) w.memory = some ((), w'.memory)
  untold : call.Replaces = false → w'.memory = w.memory

/-- A call that comes to an end, within a callback or outside of all callbacks. -/
structure Carried (p : Program P μ) (depth : Nat) (w : World P μ) (call : ContextCall)
    (w' : World P μ) : Prop where
  ran : ∀ scope, call.routine.run ((p.invoke depth).serve scope) w
    = some ((call.on w.client.held).1, w')
  outside : w.client.abandoned = false →
    call.routine.run (p.invoke depth).serveOutside w = some ((call.on w.client.held).1, w')
  does : call.Does p w w'

theorem ContextCall.Does.staying {p : Program P μ} {w w' : World P μ} {call : ContextCall}
    (does : call.Does p w w') : w'.client.abandoned = w.client.abandoned := by
  rw [does.elsewhere]

theorem Carried.of_request {p : Program P μ} {depth : Nat} {w w' : World P μ} {call : ContextCall}
    {r : Request P call.Answer}
    (routine : (call.routine : Routine P μ call.Answer) = Routine.request r)
    (served : ∀ scope, (p.invoke depth).serve scope r w = some ((call.on w.client.held).1, w'))
    (does : call.Does p w w') : Carried p depth w call w' where
  ran scope := by
    rw [routine, Routine.run_request]
    exact served scope
  outside kept := by
    rw [routine, Routine.run_request]
    exact serveOutside_of_served (served none) (does.staying.trans kept)
  does := does

theorem ContextCall.Does.of_read (p : Program P μ) (w : World P μ) {call : ContextCall}
    (read : (call.on w.client.held).2 = w.client.held) (keeps : call.Replaces = false) :
    call.Does p w w where
  held := read.symm
  elsewhere := rfl
  failed _ := rfl
  told replaces := by
    rw [keeps] at replaces
    cases replaces
  untold _ := rfl

theorem held_insert (c : Client P) (id : String) (v : Value) :
    ({ c with contexts := c.contexts.insert id v } : Client P).held = c.held.put id v := by
  funext other
  rw [Client.held, OrderedMap.get?_insert, Holdings.put_apply]
  by_cases here : other = id
  · simp [here]
  · simp [here, Ne.symm here, Client.held]

section

variable {p : Program P μ} (depth : Nat) {w : World P μ}

theorem carried_create (id : String) (v : Value) :
    ∃ w', Carried p depth w (.create id v) w' := by
  refine ⟨⟨(w.client.createContext id v).2, w.memory⟩, .of_request rfl (fun _ => ?_) ?_⟩
  · show some ((w.client.createContext id v).1, _) = _
    congr 2
    rw [Client.createContext, ContextCall.on, Client.held]
    cases w.client.contexts.get? id with
    | none => exact if_pos rfl
    | some x => rfl
  · cases found : w.client.contexts.get? id with
    | none =>
      have made : (w.client.createContext id v).2
          = { w.client with contexts := w.client.contexts.insert id v } := by
        rw [Client.createContext, found]
        rfl
      have on : ContextCall.on w.client.held (.create id v)
          = (.ok ⟨id, v.kind⟩, w.client.held.put id v) := by
        rw [ContextCall.on, Client.held, found]
      refine ⟨?_, rfl, ?_, fun h => (by cases h), fun _ => rfl⟩
      · rw [made, on]
        exact held_insert w.client id v
      · intro failed
        rw [on] at failed
        cases failed
    | some x =>
      have kept : (w.client.createContext id v).2 = w.client := by
        simp only [Client.createContext, found, Option.getD_some,
          OrderedMap.insert_eq_self found]
      rw [kept]
      refine .of_read p w ?_ rfl
      rw [ContextCall.on, Client.held, found]

theorem carried_delete (keys : w.client.contexts.keys.Nodup) (id : String) :
    ∃ w', Carried p depth w (.delete id) w' := by
  refine ⟨⟨(w.client.deleteContext id).2, w.memory⟩, .of_request rfl (fun _ => rfl) ?_⟩
  refine ⟨?_, rfl, ?_, fun h => (by cases h), fun _ => rfl⟩
  · funext other
    show (w.client.contexts.erase id).get? other = w.client.held.drop id other
    rw [get?_erase keys, Holdings.drop_apply]
    by_cases here : other = id
    · simp [here]
    · simp [here, Ne.symm here, Client.held]
  · intro failed
    have absent : w.client.contexts.get? id = none := Option.not_isSome_iff_eq_none.1 (by
      rw [Bool.not_eq_true]
      exact failed)
    have erased := (OrderedMap.get?_eq_none_absent absent).2.2.2
    have same : w.client.contexts.erase id = w.client.contexts := congrArg OrderedMap.mk erased
    show World.mk { w.client with contexts := w.client.contexts.erase id } w.memory = w
    rw [same]

end

/-- What a write through a handle does. -/
structure Replaced (p : Program P μ) (w : World P μ) (h : ContextHandle) (next : Value → Value)
    (w' : World P μ) : Prop where
  held : w'.client.held = (w.client.held.replace h next).2
  elsewhere : w'.client = { w.client with contexts := w'.client.contexts }
  failed : (w.client.held.replace h next).1.toBool = false → w' = w
  told : (w.client.held.replace h next).1.toBool = true →
    p.tellAlone (w.client.audience.map (·.2)) w.memory = some ((), w'.memory)

/-- An update reads the context and writes what follows from it. -/
theorem run_updateContext (calls : Calls P μ) (scope : Option String) (h : ContextHandle)
    (next : Value → Value) (w : World P μ) :
    (Routine.updateContext h next).run (calls.serve scope) w
      = match w.client.held.look h.id h.kind with
        | .error e => some (.error e, w)
        | .ok x => calls.writeContext h (next x) w := by
  have step : (Routine.updateContext h next).run (calls.serve scope) w
      = (match w.client.held.look h.id h.kind with
        | .error e => pure (.error e)
        | .ok x => Routine.request (.writeContext h (next x)) :
          Routine P μ (Except Fault Unit)).run (calls.serve scope) w := rfl
  rw [step]
  cases w.client.held.look h.id h.kind with
  | error e => rfl
  | ok x => exact Routine.run_request _ _ w

theorem run_updateContext_outside {calls : Calls P μ} {h : ContextHandle} {next : Value → Value}
    {w : World P μ} (kept : w.client.abandoned = false) :
    (Routine.updateContext h next).run calls.serveOutside w
      = match w.client.held.look h.id h.kind with
        | .error e => some (.error e, w)
        | .ok x => calls.serveOutside (.writeContext h (next x)) w := by
  have read : calls.serveOutside (.readContext h) w = some (w.client.held.look h.id h.kind, w) :=
    serveOutside_of_served rfl kept
  have step : (Routine.updateContext h next).run calls.serveOutside w
      = (match w.client.held.look h.id h.kind with
        | .error e => pure (.error e)
        | .ok x => Routine.request (.writeContext h (next x)) :
          Routine P μ (Except Fault Unit)).run calls.serveOutside w := bind_of_eq_some read
  rw [step]
  cases w.client.held.look h.id h.kind with
  | error e => rfl
  | ok x => exact Routine.run_request _ _ w

section

variable {p : Program P μ} (silent : ∀ l, (p.listener l).Silent) (depth : Nat) {w : World P μ}
  (callers : ∀ r ∈ w.client.allReactions, ∃ l, r = .call l)

include silent callers

theorem exists_replaced {h : ContextHandle} (next : Value → Value)
    (typed : ∀ x, x.kind = h.kind → (next x).kind = h.kind) :
    ∃ w', Replaced p w h next w' ∧
      (∀ e, w.client.held.look h.id h.kind = .error e → w' = w) ∧
      ∀ x, w.client.held.look h.id h.kind = .ok x →
        (p.invoke (depth + 1)).writeContext h (next x) w = some (.ok (), w') := by
  cases looked : w.client.held.look h.id h.kind with
  | error e =>
    have refused : w.client.held.replace h next = (.error e, w.client.held) := by
      rw [Holdings.replace, looked]
    refine ⟨w, ⟨?_, rfl, fun _ => rfl, ?_⟩, fun _ _ => rfl, fun _ h => (by cases h)⟩
    · rw [refused]
    · intro told
      rw [refused] at told
      cases told
  | ok x =>
    have kind := (Holdings.look_eq_ok_iff.1 looked).2
    have put : w.client.held.replace h next = (.ok (), w.client.held.put h.id (next x)) := by
      rw [Holdings.replace, looked]
    obtain ⟨memory', alone, written⟩ :=
      writeContext_tells silent depth (typed x kind) looked callers w.memory
    let c' : Client P := { w.client with contexts := w.client.contexts.insert h.id (next x) }
    refine ⟨⟨c', memory'⟩, ⟨?_, rfl, ?_, fun _ => alone⟩, fun _ h => (by cases h), ?_⟩
    · rw [put]
      exact held_insert w.client h.id (next x)
    · intro failed
      rw [put] at failed
      cases failed
    · rintro x' same
      obtain rfl := Except.ok.inj same
      exact written

theorem carried_set {h : ContextHandle} {v : Value} (typed : v.kind = h.kind) :
    ∃ w', Carried p (depth + 1) w (.set h v) w' := by
  obtain ⟨w', replaced, refused, written⟩ :=
    exists_replaced silent depth callers (fun _ => v) fun _ _ => typed
  refine ⟨w', .of_request rfl (fun scope => ?_) ?_⟩
  · show (p.invoke (depth + 1)).writeContext h v w
      = some ((w.client.held.replace h fun _ => v).1, w')
    rw [Holdings.replace]
    cases looked : w.client.held.look h.id h.kind with
    | error e =>
      rw [refused e looked]
      exact writeContext_of_error looked
    | ok x => exact written x looked
  · exact ⟨replaced.held, replaced.elsewhere, replaced.failed, fun _ => replaced.told,
      fun keeps => by cases keeps⟩

theorem carried_update {h : ContextHandle} {next : Value → Value}
    (typed : ∀ x, x.kind = h.kind → (next x).kind = h.kind) :
    ∃ w', Carried p (depth + 1) w (.update h next) w' := by
  obtain ⟨w', replaced, refused, written⟩ := exists_replaced silent depth callers next typed
  refine ⟨w', ?_, ?_, ?_⟩
  · intro scope
    show (Routine.updateContext h next).run ((p.invoke (depth + 1)).serve scope) w
      = some ((w.client.held.replace h next).1, w')
    rw [run_updateContext, Holdings.replace]
    cases looked : w.client.held.look h.id h.kind with
    | error e => rw [refused e looked]
    | ok x => exact written x looked
  · intro kept
    show (Routine.updateContext h next).run (p.invoke (depth + 1)).serveOutside w
      = some ((w.client.held.replace h next).1, w')
    rw [run_updateContext_outside kept, Holdings.replace]
    cases looked : w.client.held.look h.id h.kind with
    | error e => rw [refused e looked]
    | ok x =>
      have staying : w'.client.abandoned = w.client.abandoned := by rw [replaced.elsewhere]
      exact serveOutside_of_served (written x looked) (staying.trans kept)
  · exact ⟨replaced.held, replaced.elsewhere, replaced.failed, fun _ => replaced.told,
      fun keeps => by cases keeps⟩

/-- A call comes to an end, and does with the contexts what it does with the store. -/
theorem exists_carried {call : ContextCall} (typed : call.Typed)
    (keys : w.client.contexts.keys.Nodup) : ∃ w', Carried p (depth + 1) w call w' := by
  cases call with
  | create id v => exact carried_create (depth + 1) id v
  | find id kind =>
    have found : w.client.openContext id kind
        = (ContextCall.on w.client.held (.find id kind)).1 := rfl
    exact ⟨w, .of_request rfl (fun _ => congrArg (fun a => some (a, w)) found)
      (.of_read p w rfl rfl)⟩
  | delete id => exact carried_delete (depth + 1) keys id
  | get h => exact ⟨w, .of_request rfl (fun _ => rfl) (.of_read p w rfl rfl)⟩
  | set h v => exact carried_set silent depth callers typed
  | update h next => exact carried_update silent depth callers typed

end

/-! ### Runs -/

/-- The worlds that calls one after another pass through. -/
inductive ContextRun (p : Program P μ) (depth : Nat) :
    World P μ → List ContextCall → World P μ → Prop
  | nil (w) : ContextRun p depth w [] w
  | cons {w call w₁ cs w'} (carried : Carried p depth w call w₁)
      (rest : ContextRun p depth w₁ cs w') : ContextRun p depth w (call :: cs) w'

namespace ContextRun

variable {p : Program P μ} {depth : Nat} {w w' : World P μ} {cs : List ContextCall}

theorem ran (run : ContextRun p depth w cs w') (scope : Option String) :
    (contextCalls cs).run ((p.invoke depth).serve scope) w
      = some (w.client.held.answers cs, w') := by
  induction run with
  | nil => rfl
  | cons carried rest ih =>
    refine (congrFun (Routine.run_bind _ _ _) _).trans ?_
    rw [bind_of_eq_some (carried.ran scope)]
    refine (congrFun (Routine.run_bind _ _ _) _).trans ?_
    rw [bind_of_eq_some ih, carried.does.held]
    rfl

theorem outside (run : ContextRun p depth w cs w') (kept : w.client.abandoned = false) :
    p.run depth (contextCalls cs) w = some (w.client.held.answers cs, w') := by
  rw [Program.run]
  induction run with
  | nil => rfl
  | cons carried rest ih =>
    refine (congrFun (Routine.run_bind _ _ _) _).trans ?_
    rw [bind_of_eq_some (carried.outside kept)]
    refine (congrFun (Routine.run_bind _ _ _) _).trans ?_
    rw [bind_of_eq_some (ih (carried.does.staying.trans kept)), carried.does.held]
    rfl

theorem held (run : ContextRun p depth w cs w') : w'.client.held = w.client.held.after cs := by
  induction run with
  | nil => rfl
  | cons carried _ ih => rw [ih, carried.does.held, Holdings.after]

theorem elsewhere (run : ContextRun p depth w cs w') :
    w'.client = { w.client with contexts := w'.client.contexts } := by
  induction run with
  | nil => rfl
  | cons carried _ ih => rw [ih, carried.does.elsewhere]

theorem path (run : ContextRun p depth w cs w') : Path w.client w'.client := by
  have callbacks : (p.invoke depth).Keep (fun _ _ => True) Path :=
    ⟨pathLaw.moves_invoke p depth, fun _ _ _ _ _ => trivial⟩
  have moves : ((contextCalls cs).run ((p.invoke depth).serve none)).Moves Path :=
    pathLaw.toComposes.moves_run (fun hr => pathLaw.regime.moves_serve callbacks none hr)
      (Routine.sends_all _)
  exact moves w _ w' (run.ran none)

/-- The calls pass through the worlds before and after each of them. -/
theorem split {before after : List ContextCall} {call : ContextCall}
    (run : ContextRun p depth w (before ++ call :: after) w') :
    ∃ w₁ w₂, ContextRun p depth w before w₁ ∧ Carried p depth w₁ call w₂ ∧
      ContextRun p depth w₂ after w' := by
  induction before generalizing w with
  | nil =>
    cases run with
    | cons carried rest => exact ⟨_, _, .nil w, carried, rest⟩
  | cons first before ih =>
    cases run with
    | cons carried rest =>
      obtain ⟨w₁, w₂, early, here, late⟩ := ih rest
      exact ⟨w₁, w₂, .cons carried early, here, late⟩

end ContextRun

section

variable {p : Program P μ} (silent : ∀ l, (p.listener l).Silent) (depth : Nat)

include silent

/-- Calls come to an end. -/
theorem exists_contextRun {document : Document} {cs : List ContextCall}
    (typed : ∀ call ∈ cs, call.Typed) {w : World P μ}
    (reached : Path (Client.new document) w.client)
    (callers : ∀ r ∈ w.client.allReactions, ∃ l, r = .call l) :
    ∃ w', ContextRun p (depth + 1) w cs w' := by
  induction cs generalizing w with
  | nil => exact ⟨w, .nil w⟩
  | cons call cs ih =>
    obtain ⟨typed, rest⟩ := List.forall_mem_cons.1 typed
    obtain ⟨w₁, carried⟩ := exists_carried silent depth callers typed reached.contextKeys
    have first : ContextRun p (depth + 1) w [call] w₁ := .cons carried (.nil w₁)
    have callers₁ : ∀ r ∈ w₁.client.allReactions, ∃ l, r = .call l := by
      rw [first.elsewhere]
      exact callers
    obtain ⟨w', run⟩ := ih rest (reached.trans first.path) callers₁
    exact ⟨w', .cons carried run⟩

/-- Listeners ask for nothing, and nobody listens to components but they.  Any calls
    come to an end, with the answers of a store that looks at the kinds of its values,
    and at every point the contexts hold what the store holds.  A call succeeds
    exactly when it finds a value of the kind that it asks for; to make a context also
    succeeds when there is none, and leaves the value of one that is there.  A call
    that fails changes nothing and runs nothing.  A write that succeeds stores the
    value and tells everybody who listens to a component, each once; other calls tell
    nobody.  The kind of the value under an id changes only when the context is
    deleted and made again. -/
theorem contexts_keep_kinds {document : Document} {cs : List ContextCall}
    (typed : ∀ call ∈ cs, call.Typed) {w : World P μ}
    (reached : Path (Client.new document) w.client)
    (callers : ∀ r ∈ w.client.allReactions, ∃ l, r = .call l) :
    ∃ w', (∀ scope, (contextCalls cs).run ((p.invoke (depth + 1)).serve scope) w
        = some (w.client.held.answers cs, w')) ∧
      (w.client.abandoned = false →
        p.run (depth + 1) (contextCalls cs) w = some (w.client.held.answers cs, w')) ∧
      ((w.client.audience.map (·.1)).Nodup ∧ ∀ id n l,
        ((id, n), l) ∈ w.client.audience ↔ (n, .call l) ∈ w.client.listenersOf id) ∧
      (∀ before call after, cs = before ++ call :: after → ∃ w₁ w₂,
        ContextRun p (depth + 1) w before w₁ ∧ Carried p (depth + 1) w₁ call w₂ ∧
          ContextRun p (depth + 1) w₂ after w' ∧
        w₁.client.held = w.client.held.after before ∧ w₁.client.audience = w.client.audience ∧
        (call.Succeeds (call.on w₁.client.held).1 = true ↔ call.Fits w₁.client.held)) ∧
      ∀ before between after, cs = before ++ between ++ after → ∀ id v v',
        w.client.held.after before id = some v →
        w.client.held.after (before ++ between) id = some v' → v'.kind ≠ v.kind →
          Holdings.Remade id v'.kind between := by
  obtain ⟨w', run⟩ := exists_contextRun silent depth typed reached callers
  have keys := (reached.wired (wired_new document)).listenerKeys
  refine ⟨w', run.ran, run.outside, ⟨nodup_audience keys reached.lined.components,
    fun _ _ _ => mem_audience keys⟩, ?_, ?_⟩
  · rintro before call after rfl
    obtain ⟨w₁, w₂, first, carried, last⟩ := run.split
    refine ⟨w₁, w₂, first, carried, last, first.held, ?_, call.succeeds_iff _⟩
    rw [first.elsewhere]
    rfl
  · rintro before between after rfl id v v' found found' changed
    have among : ∀ call ∈ between, call.Typed := fun call listed => typed call (by simp [listed])
    rw [Holdings.after_append] at found'
    exact Holdings.kind_changed among found found' changed

end

/-! ### A context that changes its kind -/

/-- The client when two components are listened to. -/
def overheard : Client named :=
  (((Client.new {}).subscribe "a" (.call "first")).2.subscribe "b" (.call "second")).2

/-- A text is kept, written and updated, and deleted; a number takes its place.  The
    handle to the text writes nothing any more. -/
def themeCalls : List ContextCall :=
  [.create "theme" (.text "dark"), .create "theme" (.int 1),
    .set ⟨"theme", .text⟩ (.text "light"), .update ⟨"theme", .text⟩ fun _ => .text "dim",
    .delete "theme", .set ⟨"theme", .text⟩ (.text "dark"), .create "theme" (.int 2),
    .update ⟨"theme", .text⟩ fun _ => .text "light", .set ⟨"theme", .int⟩ (.int 3)]

theorem path_overheard : Path (Client.new {}) overheard := by
  have step (c : Client named) (id name : String) : Path c (c.subscribe id (.call name)).2 :=
    .change (.refl c) (.subscribe c id _)
  exact (step (Client.new {}) "a" "first").trans (step _ "b" "second")

theorem themeCalls_typed : ∀ call ∈ themeCalls, call.Typed := by
  simp [themeCalls, ContextCall.Typed, Value.kind]

theorem overheard_callers : ∀ r ∈ overheard.allReactions, ∃ l, r = .call l := by
  have reactions : overheard.allReactions = [.call "first", .call "second"] := rfl
  simp [reactions]

/-- Both listeners are told of the three writes that succeed. -/
theorem themeCalls_told :
    (∀ name, (journalProgram.listener name).Silent) ∧ (∀ call ∈ themeCalls, call.Typed) ∧
      Path (Client.new {}) overheard ∧ (∀ r ∈ overheard.allReactions, ∃ l, r = .call l) ∧
      ∃ w', journalProgram.run 1 (contextCalls themeCalls) ⟨overheard, []⟩
          = some (overheard.held.answers themeCalls, w') ∧
        w'.memory = ["first", "second", "first", "second", "first", "second"] ∧
        Holdings.Remade "theme" .int (themeCalls.drop 1) := by
  have law := contexts_keep_kinds journalProgram_silent 0 themeCalls_typed
    (w := ⟨overheard, []⟩) path_overheard overheard_callers
  obtain ⟨w', _, ran, _, _, changes⟩ := law
  refine ⟨journalProgram_silent, themeCalls_typed, path_overheard, overheard_callers, w', ran rfl,
    ?_, ?_⟩
  · have journal : (journalProgram.run 1 (contextCalls themeCalls) ⟨overheard, []⟩).map
        (·.2.memory) = some ["first", "second", "first", "second", "first", "second"] := by
      decide +kernel
    rw [ran rfl] at journal
    exact Option.some.inj journal
  · refine changes (themeCalls.take 1) (themeCalls.drop 1) [] rfl "theme" (.text "dark")
      (.int 3) rfl rfl ?_
    decide

end PageTree.Live
