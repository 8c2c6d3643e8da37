/-
  PageTree/Proofs/Live/Notices.lean
  =================================
  **Who is told when a state changes.**

  A state is written, read and listened to through its setter, and whoever wants
  to know of any change of its component listens to the component.  A history of
  such dealings, each with its answer, says what value was written last and who
  still listens.  Listeners that ask for nothing do all their work on the memory of
  the program, so the memory shows who was told, how often and in which order.

    * `Account`: the client keeps what a history says;
    * `write_tells`: a write that changes the state tells those who listen to the
      state and then those who listen to the component, each once;
    * `dealings_tell`: so does every write after any dealings.
-/
import PageTree.Proofs.Live.Schedules
import PageTree.Proofs.Live.Setters
import PageTree.Proofs.Live.Subscriptions

namespace PageTree.Live

variable {P : Callbacks} {μ α β : Type}

/-! ### Dealings -/

/-- What may be done with a state and its component. -/
inductive Dealing (P : Callbacks) where
  | set (v : Value)
  | update (next : Value → Value)
  | get
  /-- Begin to listen to the state. -/
  | listen (l : P.Listener)
  | unlisten (n : Nat)
  /-- Begin to listen to the component. -/
  | subscribe (l : P.Listener)
  | unsubscribe (n : Nat)

namespace Dealing

def Answer : Dealing P → Type
  | set _ | update _ | unlisten _ | unsubscribe _ => Bool
  | get => Option Value
  | listen _ => Option Nat
  | subscribe _ => Nat

/-- Only values of the kind of the state are written. -/
def Typed (kind : ValueKind) : Dealing P → Prop
  | set v => v.kind = kind
  | update next => ∀ x, x.kind = kind → (next x).kind = kind
  | _ => True

def routine (s : Setter) : (d : Dealing P) → Routine P μ d.Answer
  | set v => Routine.request (.write s v)
  | update next => Routine.update s next
  | get => Routine.request (.read s)
  | listen l => Routine.request (.listen s l)
  | unlisten n => Routine.request (.unlisten s n)
  | subscribe l => Routine.request (.subscribe s.component l)
  | unsubscribe n => Routine.request (.unsubscribe s.component n)

end Dealing

/-- A dealing and its answer. -/
structure Entry (P : Callbacks) where
  dealing : Dealing P
  answer : dealing.Answer

/-- Dealings one after another; their history is the answer. -/
def dealings (s : Setter) : List (Dealing P) → Routine P μ (List (Entry P))
  | [] => return []
  | d :: ds => do
    let a ← d.routine s
    let h ← dealings s ds
    return ⟨d, a⟩ :: h

/-! ### What a history says -/

namespace Entry

/-- The state changed. -/
def changed : Entry P → Bool
  | ⟨.set _, true⟩ | ⟨.update _, true⟩ => true
  | _ => false

/-- The value of the state after the entry. -/
def value (x : Value) : Entry P → Value
  | ⟨.set v, true⟩ => v
  | ⟨.update next, true⟩ => next x
  | _ => x

end Entry

/-- The value that was written last, `x` if none was. -/
def lastWritten (x : Value) (h : List (Entry P)) : Value := h.foldl Entry.value x

/-- How listeners come and go. -/
structure Registry (P : Callbacks) (β : Type) where
  /-- Who comes, with the number given out. -/
  joins : Entry P → Option (Nat × β)
  /-- Whether whoever has the number goes. -/
  leaves : Entry P → Nat → Bool

namespace Registry

variable (registry : Registry P β)

/-- The listener with the number does not go. -/
def stays (h : List (Entry P)) (n : Nat) : Bool := h.all fun e => !registry.leaves e n

/-- Who comes during a history and does not go after that. -/
def newcomers : List (Entry P) → List (Nat × β)
  | [] => []
  | e :: h => (registry.joins e).toList.filter (registry.stays h ·.1) ++ newcomers h

/-- Who listens after a history, in the order of their coming. -/
def after (ls : List (Nat × β)) (h : List (Entry P)) : List (Nat × β) :=
  ls.filter (registry.stays h ·.1) ++ registry.newcomers h

theorem after_nil (ls : List (Nat × β)) : registry.after ls [] = ls := by
  simp [after, stays, newcomers]

theorem after_cons (ls : List (Nat × β)) (e : Entry P) (h : List (Entry P)) :
    registry.after ls (e :: h)
      = registry.after (ls.filter (fun l => !registry.leaves e l.1) ++ (registry.joins e).toList)
          h := by
  have stays (n : Nat) :
      registry.stays (e :: h) n = (registry.stays h n && !registry.leaves e n) := by
    simp [Registry.stays, Bool.and_comm]
  simp only [after, newcomers, stays, List.filter_append, List.filter_filter, List.append_assoc]

theorem after_singleton (ls : List (Nat × β)) (e : Entry P) :
    registry.after ls [e]
      = ls.filter (fun l => !registry.leaves e l.1) ++ (registry.joins e).toList := by
  rw [after_cons, after_nil]

theorem after_of_aside {ls : List (Nat × β)} {e : Entry P} (joins : registry.joins e = none)
    (leaves : ∀ n, registry.leaves e n = false) : registry.after ls [e] = ls := by
  rw [after_singleton, joins]
  simp [leaves]

end Registry

/-- Those who listen to the state. -/
def ofState : Registry P P.Listener where
  joins
    | ⟨.listen l, some n⟩ => some (n, l)
    | _ => none
  leaves
    | ⟨.unlisten m, _⟩, n => n == m
    | _, _ => false

/-- Those who listen to the component. -/
def ofComponent : Registry P (Reaction P) where
  joins
    | ⟨.subscribe l, n⟩ => some (n, .call l)
    | _ => none
  leaves
    | ⟨.unsubscribe m, _⟩, n => n == m
    | _, _ => false

/-- The client keeps what a history says: the value written last, who listens to
    the state and who listens to the component.  A state that is not there does not
    come back. -/
structure Account (s : Setter) (c : Client P) (h : List (Entry P)) (c' : Client P) : Prop where
  slot : c'.stateSlot? s = (c.stateSlot? s).map fun slot =>
    { value := lastWritten slot.value h, listeners := ofState.after slot.listeners h }
  listeners : c'.listenersOf s.component = ofComponent.after (c.listenersOf s.component) h
  /-- A state that was written has the kind of the setter. -/
  kind : ∀ slot slot', c.stateSlot? s = some slot → c'.stateSlot? s = some slot' →
    slot.value.kind = s.kind ∨ (∃ e ∈ h, e.changed = true) → slot'.value.kind = s.kind

namespace Account

variable {s : Setter} {c c' c'' : Client P} {e : Entry P} {h : List (Entry P)}

theorem nil (s : Setter) (c : Client P) : Account s c [] c where
  slot := by
    cases c.stateSlot? s with
    | none => rfl
    | some slot =>
      rw [Option.map_some, ofState.after_nil]
      rfl
  listeners := (ofComponent.after_nil _).symm
  kind := by
    rintro slot slot' found found' (kind | ⟨e, he, _⟩)
    · obtain rfl := Option.some.inj (found.symm.trans found')
      exact kind
    · cases he

theorem cons (first : Account s c [e] c') (rest : Account s c' h c'') :
    Account s c (e :: h) c'' where
  slot := by
    rw [rest.slot, first.slot, Option.map_map]
    congr 1
    funext slot
    simp only [Function.comp, ofState.after_cons _ e, ofState.after_nil]
    rfl
  listeners := by
    rw [rest.listeners, first.listeners, ofComponent.after_cons _ e, ofComponent.after_cons _ e,
      ofComponent.after_nil]
  kind := by
    intro slot slot'' found found'' written
    have between : ∃ slot', c'.stateSlot? s = some slot' := by
      rw [first.slot, found]
      exact ⟨_, rfl⟩
    obtain ⟨slot', found'⟩ := between
    apply rest.kind slot' slot'' found' found''
    rcases written with kind | ⟨e', listed, changed⟩
    · exact .inl (first.kind slot slot' found found' (.inl kind))
    · rcases List.mem_cons.1 listed with here | later
      · exact .inl (first.kind slot slot' found found' (.inr ⟨e', by simp [here], changed⟩))
      · exact .inr ⟨e', later, changed⟩

end Account

/-! ### Telling listeners -/

/-- Listeners are told one after another. -/
def Program.tellAlone (p : Program P μ) (ls : List P.Listener) : Work μ PUnit :=
  ls.forM fun l => (p.listener l).alone

/-- The listeners of a component that are callbacks. -/
def Client.callersOf (c : Client P) (id : String) : List P.Listener :=
  (c.reactionsOf id).filterMap fun
    | .call l => some l
    | .rerender _ => none

/-- Nobody listens to the component but callbacks. -/
def Client.Unmounted (c : Client P) (id : String) : Prop :=
  ∀ r ∈ c.reactionsOf id, ∃ l, r = .call l

theorem reactionsOf_eq {c : Client P} {id : String} (unmounted : c.Unmounted id) :
    c.reactionsOf id = (c.callersOf id).map .call := by
  rw [Client.callersOf]
  rw [Client.Unmounted] at unmounted
  generalize c.reactionsOf id = rs at unmounted ⊢
  induction rs with
  | nil => rfl
  | cons r rs ih =>
    obtain ⟨⟨l, rfl⟩, rest⟩ := List.forall_mem_cons.1 unmounted
    rw [List.filterMap_cons, List.map_cons, ← ih rest]

theorem forM_react_call (calls : Calls P μ) (ls : List P.Listener) :
    (ls.map .call).forM calls.react = ls.forM calls.listener := by
  induction ls with
  | nil => rfl
  | cons l ls ih => exact congrArg (fun rest => calls.listener l >>= fun _ => rest) ih

section

variable {p : Program P μ} (silent : ∀ l, (p.listener l).Silent) (depth : Nat)

include silent

/-- Listeners do the same in the client as alone. -/
theorem tell_alone (ls : List P.Listener) (c : Client P) (memory : μ) :
    ∃ memory', p.tellAlone ls memory = some ((), memory') ∧
      ls.forM (p.invoke (depth + 1)).listener ⟨c, memory⟩ = some ((), ⟨c, memory'⟩) := by
  induction ls generalizing memory with
  | nil => exact ⟨memory, rfl, rfl⟩
  | cons l ls ih =>
    obtain ⟨_, memory₁, alone₁, ran₁⟩ :=
      (silent l).run_alone ((p.invoke depth).serve none) c memory
    obtain ⟨memory', alone, told⟩ := ih memory₁
    exact ⟨memory', (bind_of_eq_some alone₁).trans alone, (bind_of_eq_some ran₁).trans told⟩

/-- A write that changes a state tells those who listen to the state, and then those
    who listen to the component. -/
theorem write_tells {s : Setter} {v : Value} {c : Client P} {slot : StateSlot P}
    (found : c.stateSlot? s = some slot) (kind : v.kind = s.kind) (differs : ¬ slot.value.same v)
    (unmounted : c.Unmounted s.component) (memory : μ) :
    ∃ memory', p.tellAlone (slot.listeners.map (·.2) ++ c.callersOf s.component) memory
        = some ((), memory') ∧
      (p.invoke (depth + 1)).write s v ⟨c, memory⟩
        = some (true, ⟨c.modifyState s fun slot => { slot with value := v }, memory'⟩) := by
  let c' := c.modifyState s fun slot => { slot with value := v }
  obtain ⟨memory₁, alone₁, told₁⟩ := tell_alone silent depth (slot.listeners.map (·.2)) c' memory
  obtain ⟨memory', alone, told⟩ := tell_alone silent depth (c.callersOf s.component) c' memory₁
  have notified : (p.invoke (depth + 1)).notify s.component ⟨c', memory₁⟩
      = some ((), ⟨c', memory'⟩) := by
    have reactions : c'.reactionsOf s.component = (c.callersOf s.component).map .call :=
      reactionsOf_eq unmounted
    rw [Calls.notify, Act.look_bind, reactions, forM_react_call]
    exact told
  refine ⟨memory', ?_, ?_⟩
  · rw [Program.tellAlone, List.forM_eq_forM, List.forM_append]
    exact (bind_of_eq_some alone₁).trans alone
  · rw [Calls.write, Act.through_bind, store_of_changed found kind differs]
    exact (bind_of_eq_some told₁).trans (bind_of_eq_some notified)

end

/-! ### What a dealing does -/

/-- What a write does, and what it answers. -/
structure Writes (p : Program P μ) (s : Setter) (v : Value) (w : World P μ) (changed : Bool)
    (w' : World P μ) : Prop where
  answer : changed = true ↔ ∃ slot, w.client.stateSlot? s = some slot ∧ ¬ slot.value.same v
  unchanged : changed = false → w' = w
  stored : changed = true →
    w'.client = w.client.modifyState s fun slot => { slot with value := v }
  /-- Those who listen to the state are told, then those who listen to its
      component. -/
  told : changed = true → ∃ slot, w.client.stateSlot? s = some slot ∧
    p.tellAlone (slot.listeners.map (·.2) ++ w.client.callersOf s.component) w.memory
      = some ((), w'.memory)

theorem Writes.staying {p : Program P μ} {s : Setter} {v : Value} {w w' : World P μ}
    {changed : Bool} (did : Writes p s v w changed w') :
    w'.client.abandoned = w.client.abandoned := by
  cases changed with
  | false => rw [did.unchanged rfl]
  | true =>
    rw [did.stored rfl]
    rfl

/-- What a dealing does, and what it answers. -/
def Dealing.Does (p : Program P μ) (s : Setter) (w : World P μ) :
    (d : Dealing P) → d.Answer → World P μ → Prop
  | .set v, changed, w' => Writes p s v w changed w'
  | .update next, changed, w' =>
    (w.client.read s = none → changed = false ∧ w' = w) ∧
      ∀ x, w.client.read s = some x → Writes p s (next x) w changed w'
  | .get, found, w' => found = w.client.read s ∧ w' = w
  | .listen _, number, w' =>
    number.isSome = (w.client.stateSlot? s).isSome ∧ w'.memory = w.memory
  | _, _, w' => w'.memory = w.memory

section

variable {p : Program P μ} (silent : ∀ l, (p.listener l).Silent) (depth : Nat)

include silent

theorem writes {s : Setter} {v : Value} (kind : v.kind = s.kind) {c : Client P}
    (unmounted : c.Unmounted s.component) (memory : μ) :
    ∃ changed w', (p.invoke (depth + 1)).write s v ⟨c, memory⟩ = some (changed, w') ∧
      Writes p s v ⟨c, memory⟩ changed w' := by
  by_cases differs : ∃ slot, c.stateSlot? s = some slot ∧ ¬ slot.value.same v
  · obtain ⟨slot, found, differs⟩ := differs
    obtain ⟨memory', alone, written⟩ := write_tells silent depth found kind differs unmounted memory
    refine ⟨true, _, written, ?_, ?_, ?_, ?_⟩
    · exact ⟨fun _ => ⟨slot, found, differs⟩, fun _ => rfl⟩
    · intro unchanged
      cases unchanged
    · intro _
      rfl
    · intro _
      exact ⟨slot, found, alone⟩
  · have unchanged : c.store s v = (none, c) := by
      apply store_of_unchanged
      intro slot found
      by_contra other
      exact differs ⟨slot, found, other⟩
    refine ⟨false, _, write_of_store_none unchanged, ?_, ?_, ?_, ?_⟩
    · exact ⟨fun h => (nomatch h), fun h => absurd h differs⟩
    · intro _
      rfl
    · intro changed
      cases changed
    · intro changed
      cases changed

end

/-! ### Accounts of single dealings -/

namespace Account

variable {s : Setter} {c c' : Client P} {e : Entry P}

theorem single
    (slot : c'.stateSlot? s = (c.stateSlot? s).map fun slot =>
      { value := e.value slot.value, listeners := ofState.after slot.listeners [e] })
    (listeners : c'.listenersOf s.component = ofComponent.after (c.listenersOf s.component) [e])
    (kind : ∀ slot, c.stateSlot? s = some slot →
      slot.value.kind = s.kind ∨ e.changed = true → (e.value slot.value).kind = s.kind) :
    Account s c [e] c' := by
  refine ⟨slot, listeners, ?_⟩
  intro before after found found' written
  rw [slot, found] at found'
  rw [← Option.some.inj found']
  apply kind before found
  rcases written with kind | ⟨e', listed, changed⟩
  · exact .inl kind
  · exact .inr (List.mem_singleton.1 listed ▸ changed)

/-- Nobody came or went, and the state, if it was written, was given the value. -/
theorem of_value {v : StateSlot P → Value}
    (slot : c'.stateSlot? s = (c.stateSlot? s).map fun slot => { slot with value := v slot })
    (listeners : c'.listeners = c.listeners)
    (value : ∀ slot, c.stateSlot? s = some slot → e.value slot.value = v slot)
    (kind : ∀ slot, c.stateSlot? s = some slot →
      slot.value.kind = s.kind ∨ e.changed = true → (v slot).kind = s.kind)
    (state : ∀ ls, ofState.after ls [e] = ls) (component : ∀ ls, ofComponent.after ls [e] = ls) :
    Account s c [e] c' := by
  apply single
  · rw [slot]
    refine Option.map_congr fun slot found => ?_
    rw [value slot found, state]
  · rw [component, Client.listenersOf, listeners]
    rfl
  · intro slot found written
    rw [value slot found]
    exact kind slot found written

/-- The state is as it was. -/
theorem of_unwritten {f : List (Nat × P.Listener) → List (Nat × P.Listener)}
    (unchanged : e.changed = false) (value : ∀ x, e.value x = x)
    (slot : c'.stateSlot? s
      = (c.stateSlot? s).map fun slot => { slot with listeners := f slot.listeners })
    (state : ∀ slot, c.stateSlot? s = some slot →
      ofState.after slot.listeners [e] = f slot.listeners)
    (listeners : c'.listenersOf s.component = ofComponent.after (c.listenersOf s.component) [e]) :
    Account s c [e] c' := by
  apply single
  · rw [slot]
    refine Option.map_congr fun slot found => ?_
    rw [value, state slot found]
  · exact listeners
  · rintro slot _ (kind | changed)
    · rw [value]
      exact kind
    · rw [unchanged] at changed
      cases changed

end Account

theorem Writes.account {p : Program P μ} {s : Setter} {v : Value} {w w' : World P μ}
    {changed : Bool} (did : Writes p s v w changed w') (kind : v.kind = s.kind) {e : Entry P}
    (told : e.changed = changed)
    (value : ∀ slot, w.client.stateSlot? s = some slot →
      e.value slot.value = if changed then v else slot.value)
    (state : ∀ ls, ofState.after ls [e] = ls) (component : ∀ ls, ofComponent.after ls [e] = ls) :
    Account s w.client [e] w'.client := by
  cases changed with
  | false =>
    rw [did.unchanged rfl]
    refine .of_value (v := fun slot => slot.value) ?_ rfl value ?_ state component
    · exact Option.map_id'.symm
    · rintro slot _ (kind | changed)
      · exact kind
      · rw [told] at changed
        cases changed
  | true =>
    rw [did.stored rfl]
    refine .of_value (v := fun _ => v) ?_ rfl value (fun _ _ _ => kind) state component
    rw [stateSlot?_modifyState, if_pos ⟨rfl, rfl⟩]

/-! ### Carrying out dealings -/

theorem Routine.run_request (serve : {γ : Type} → Request P γ → Act P μ γ) (r : Request P α)
    (w : World P μ) : (Routine.request r).run serve w = serve r w :=
  congrFun (bind_pure (serve r)) w

/-- A dealing that comes to an end, within a callback or outside of all callbacks. -/
structure Dealt (p : Program P μ) (depth : Nat) (s : Setter) (w : World P μ) (d : Dealing P)
    (a : d.Answer) (w' : World P μ) : Prop where
  ran : ∀ scope, (d.routine s).run ((p.invoke depth).serve scope) w = some (a, w')
  outside : w.client.abandoned = false →
    (d.routine s).run (p.invoke depth).serveOutside w = some (a, w')
  staying : w'.client.abandoned = w.client.abandoned
  does : d.Does p s w a w'
  account : Account s w.client [⟨d, a⟩] w'.client

theorem Dealt.of_request {p : Program P μ} {depth : Nat} {s : Setter} {w w' : World P μ}
    {d : Dealing P} {r : Request P d.Answer} {a : d.Answer}
    (routine : (d.routine s : Routine P μ d.Answer) = Routine.request r)
    (served : ∀ scope, (p.invoke depth).serve scope r w = some (a, w'))
    (staying : w'.client.abandoned = w.client.abandoned) (does : d.Does p s w a w')
    (account : Account s w.client [⟨d, a⟩] w'.client) : Dealt p depth s w d a w' where
  ran scope := by
    rw [routine, Routine.run_request]
    exact served scope
  outside kept := by
    rw [routine, Routine.run_request]
    exact serveOutside_of_served (served none) (staying.trans kept)
  staying := staying
  does := does
  account := account

/-- An update reads the state and writes what follows from it. -/
theorem run_update_outside {calls : Calls P μ} {s : Setter} {f : Value → Value} {w : World P μ}
    (kept : w.client.abandoned = false) :
    (Routine.update s f).run calls.serveOutside w = match w.client.read s with
      | none => some (false, w)
      | some before => calls.serveOutside (.write s (f before)) w := by
  have read : calls.serveOutside (.read s) w = some (w.client.read s, w) :=
    serveOutside_of_served rfl kept
  have step : (Routine.update s f).run calls.serveOutside w = (match w.client.read s with
      | none => pure false
      | some before => Routine.request (.write s (f before)) :
        Routine P μ Bool).run calls.serveOutside w := bind_of_eq_some read
  rw [step]
  cases w.client.read s with
  | none => rfl
  | some before => exact Routine.run_request _ _ w

theorem kind_of_read {c : Client P} {s : Setter} {x : Value} (read : c.read s = some x) :
    x.kind = s.kind ∧ ∀ slot, c.stateSlot? s = some slot → slot.value = x := by
  obtain ⟨slot, found, answer⟩ := Option.bind_eq_some_iff.1 read
  split at answer
  · next kind =>
    obtain rfl := Option.some.inj answer
    refine ⟨kind, ?_⟩
    intro slot' found'
    rw [Option.some.inj (found.symm.trans found')]
  · cases answer

section

variable {p : Program P μ} (silent : ∀ l, (p.listener l).Silent) (depth : Nat)

include silent

theorem exists_dealt_set {s : Setter} {v : Value} (kind : v.kind = s.kind) {w : World P μ}
    (unmounted : w.client.Unmounted s.component) :
    ∃ changed w', Dealt p (depth + 1) s w (.set v) changed w' := by
  obtain ⟨changed, w', written, did⟩ := writes silent depth kind unmounted w.memory
  refine ⟨changed, w', .of_request rfl (fun _ => written) did.staying did ?_⟩
  apply did.account kind
  · cases changed <;> rfl
  · intro slot _
    cases changed <;> rfl
  · intro ls
    exact ofState.after_of_aside rfl fun _ => rfl
  · intro ls
    exact ofComponent.after_of_aside rfl fun _ => rfl

theorem exists_dealt_update {s : Setter} {next : Value → Value}
    (typed : ∀ x : Value, x.kind = s.kind → (next x).kind = s.kind) {w : World P μ}
    (unmounted : w.client.Unmounted s.component) :
    ∃ changed w', Dealt p (depth + 1) s w (.update next) changed w' := by
  have state (b : Bool) (ls : List (Nat × P.Listener)) :
      ofState.after ls [⟨.update next, b⟩] = ls :=
    ofState.after_of_aside rfl fun _ => rfl
  have component (b : Bool) (ls : List (Nat × Reaction P)) :
      ofComponent.after ls [⟨.update next, b⟩] = ls :=
    ofComponent.after_of_aside rfl fun _ => rfl
  cases read : w.client.read s with
  | none =>
    refine ⟨false, w, ?_, ?_, rfl, ⟨fun _ => ⟨rfl, rfl⟩, ?_⟩, ?_⟩
    · intro scope
      exact (run_update _ scope s next w).trans (by rw [read]; rfl)
    · intro kept
      exact (run_update_outside kept).trans (by rw [read]; rfl)
    · intro x found
      rw [read] at found
      cases found
    · refine .of_unwritten (f := id) rfl (fun _ => rfl) Option.map_id'.symm ?_ ?_
      · intro slot _
        exact state false _
      · exact (component false _).symm
  | some x =>
    obtain ⟨kind, value⟩ := kind_of_read read
    obtain ⟨changed, w', written, did⟩ := writes silent depth (typed x kind) unmounted w.memory
    refine ⟨changed, w', ?_, ?_, did.staying, ⟨?_, ?_⟩, ?_⟩
    · intro scope
      exact (run_update _ scope s next w).trans (by rw [read]; exact written)
    · intro kept
      have served : (p.invoke (depth + 1)).serveOutside (.write s (next x)) w
          = some (changed, w') :=
        serveOutside_of_served written (did.staying.trans kept)
      exact (run_update_outside kept).trans (by rw [read]; exact served)
    · intro none
      rw [read] at none
      cases none
    · intro x' found
      obtain rfl := Option.some.inj (read.symm.trans found)
      exact did
    · apply did.account (typed x kind)
      · cases changed <;> rfl
      · intro slot found
        rw [← value slot found]
        cases changed <;> rfl
      · exact state changed
      · exact component changed

/-- A dealing comes to an end. -/
theorem exists_dealt {s : Setter} (d : Dealing P) (typed : d.Typed s.kind) {w : World P μ}
    (keys : w.client.listeners.keys.Nodup) (unmounted : w.client.Unmounted s.component) :
    ∃ a w', Dealt p (depth + 1) s w d a w' := by
  cases d with
  | set v => exact exists_dealt_set silent depth typed unmounted
  | update next => exact exists_dealt_update silent depth typed unmounted
  | get =>
    refine ⟨_, w, .of_request rfl (fun _ => rfl) rfl ⟨rfl, rfl⟩ ?_⟩
    refine .of_unwritten (f := id) rfl (fun _ => rfl) Option.map_id'.symm ?_ ?_
    · intro slot _
      exact ofState.after_of_aside rfl fun _ => rfl
    · exact (ofComponent.after_of_aside rfl fun _ => rfl).symm
  | listen l =>
    refine ⟨_, _, .of_request rfl (fun _ => rfl) rfl ⟨?_, rfl⟩ ?_⟩
    · exact Option.isSome_map
    · refine .of_unwritten (f := (· ++ [(w.client.nextListener, l)])) ?_ ?_ ?_ ?_ ?_
      · rfl
      · intro x
        rfl
      · show (Client.modifyState _ s _).stateSlot? s = _
        rw [stateSlot?_modifyState, if_pos ⟨rfl, rfl⟩]
        rfl
      · intro slot found
        have number : (w.client.listen s l).1 = some w.client.nextListener := by
          rw [Client.listen, found]
          rfl
        rw [number, Registry.after_singleton]
        simp [ofState]
      · exact (ofComponent.after_of_aside rfl fun _ => rfl).symm
  | unlisten n =>
    refine ⟨_, _, .of_request rfl (fun _ => rfl) rfl rfl ?_⟩
    refine .of_unwritten (f := (·.filter (·.1 != n))) rfl (fun _ => rfl) ?_ ?_ ?_
    · show (Client.modifyState _ s _).stateSlot? s = _
      rw [stateSlot?_modifyState, if_pos ⟨rfl, rfl⟩]
    · intro slot _
      rw [Registry.after_singleton]
      exact List.append_nil _
    · exact (ofComponent.after_of_aside rfl fun _ => rfl).symm
  | subscribe l =>
    refine ⟨_, _, .of_request rfl (fun _ => rfl) rfl rfl ?_⟩
    refine .of_unwritten (f := id) rfl (fun _ => rfl) Option.map_id'.symm ?_ ?_
    · intro slot _
      exact ofState.after_of_aside rfl fun _ => rfl
    · rw [Registry.after_singleton, listenersOf_subscribe, if_pos rfl]
      simp [ofComponent, Client.subscribe]
  | unsubscribe n =>
    refine ⟨_, _, .of_request rfl (fun _ => rfl) rfl rfl ?_⟩
    refine .of_unwritten (f := id) rfl (fun _ => rfl) Option.map_id'.symm ?_ ?_
    · intro slot _
      exact ofState.after_of_aside rfl fun _ => rfl
    · rw [Registry.after_singleton, listenersOf_unsubscribe keys, if_pos rfl]
      exact (List.append_nil _).symm

end

/-! ### Histories -/

/-- The worlds that a history passes through. -/
inductive Passes (p : Program P μ) (depth : Nat) (s : Setter) :
    World P μ → List (Entry P) → World P μ → Prop
  | nil (w) : Passes p depth s w [] w
  | cons {w d a w₁ h w'} (dealt : Dealt p depth s w d a w₁) (rest : Passes p depth s w₁ h w') :
      Passes p depth s w (⟨d, a⟩ :: h) w'

namespace Passes

variable {p : Program P μ} {depth : Nat} {s : Setter} {w w' : World P μ} {h : List (Entry P)}

theorem ran (passes : Passes p depth s w h w') (scope : Option String) :
    (dealings s (h.map (·.dealing))).run ((p.invoke depth).serve scope) w = some (h, w') := by
  induction passes with
  | nil => rfl
  | cons dealt rest ih =>
    refine (congrFun (Routine.run_bind _ _ _) _).trans ?_
    rw [bind_of_eq_some (dealt.ran scope)]
    refine (congrFun (Routine.run_bind _ _ _) _).trans ?_
    rw [bind_of_eq_some ih]
    rfl

theorem outside (passes : Passes p depth s w h w') (kept : w.client.abandoned = false) :
    p.run depth (dealings s (h.map (·.dealing))) w = some (h, w') := by
  rw [Program.run]
  induction passes with
  | nil => rfl
  | cons dealt rest ih =>
    refine (congrFun (Routine.run_bind _ _ _) _).trans ?_
    rw [bind_of_eq_some (dealt.outside kept)]
    refine (congrFun (Routine.run_bind _ _ _) _).trans ?_
    rw [bind_of_eq_some (ih (dealt.staying.trans kept))]
    rfl

theorem account (passes : Passes p depth s w h w') : Account s w.client h w'.client := by
  induction passes with
  | nil w => exact .nil s w.client
  | cons dealt _ ih => exact dealt.account.cons ih

theorem path (passes : Passes p depth s w h w') : Path w.client w'.client := by
  have callbacks : (p.invoke depth).Keep (fun _ _ => True) Path :=
    ⟨pathLaw.moves_invoke p depth, fun _ _ _ _ _ => trivial⟩
  have moves : ((dealings s (h.map (·.dealing))).run ((p.invoke depth).serve none)).Moves Path :=
    pathLaw.toComposes.moves_run (fun hr => pathLaw.regime.moves_serve callbacks none hr)
      (Routine.sends_all _)
  exact moves w h w' (passes.ran none)

/-- The history passes through the worlds before and after each of its entries. -/
theorem split {before after : List (Entry P)} {e : Entry P}
    (passes : Passes p depth s w (before ++ e :: after) w') :
    ∃ w₁ w₂, Passes p depth s w before w₁ ∧ Dealt p depth s w₁ e.dealing e.answer w₂ ∧
      Passes p depth s w₂ after w' := by
  generalize whole : before ++ e :: after = h at passes
  induction passes generalizing before with
  | nil => exact absurd whole (by simp)
  | cons dealt rest ih =>
    cases before with
    | nil =>
      obtain ⟨rfl, rfl⟩ := List.cons.inj whole
      exact ⟨_, _, .nil _, dealt, rest⟩
    | cons _ before =>
      obtain ⟨rfl, rfl⟩ := List.cons.inj whole
      obtain ⟨w₁, w₂, first, here, last⟩ := ih rfl
      exact ⟨w₁, w₂, .cons dealt first, here, last⟩

end Passes

/-- Whoever comes is a callback. -/
theorem Account.unmounted {s : Setter} {c c' : Client P} {e : Entry P}
    (account : Account s c [e] c') (unmounted : c.Unmounted s.component) :
    c'.Unmounted s.component := by
  intro r listed
  obtain ⟨l, hl, rfl⟩ := List.mem_map.1 listed
  rw [account.listeners, Registry.after_singleton] at hl
  rcases List.mem_append.1 hl with old | new
  · exact unmounted l.2 (List.mem_map_of_mem (List.mem_of_mem_filter old))
  · have joins : ofComponent.joins e = some l := by simpa using new
    obtain ⟨d, a⟩ := e
    cases d with
    | subscribe l' =>
      cases joins
      exact ⟨l', rfl⟩
    | _ => cases joins

/-- What is read afterwards is the value written last. -/
theorem Account.read {s : Setter} {c c' : Client P} {h : List (Entry P)}
    (account : Account s c h c') {slot : StateSlot P} (found : c.stateSlot? s = some slot)
    (typed : slot.value.kind = s.kind ∨ ∃ e ∈ h, e.changed = true) :
    c'.read s = some (lastWritten slot.value h) := by
  have now := account.slot
  rw [found, Option.map_some] at now
  have kind := account.kind slot _ found now typed
  rw [Client.read, now, Option.bind_some, if_pos kind]

section

variable {p : Program P μ} (silent : ∀ l, (p.listener l).Silent) (depth : Nat)

include silent

/-- Dealings come to an end. -/
theorem exists_passes {document : Document} {s : Setter} {ds : List (Dealing P)}
    (typed : ∀ d ∈ ds, d.Typed s.kind) {w : World P μ}
    (reached : Path (Client.new document) w.client)
    (unmounted : w.client.Unmounted s.component) :
    ∃ h w', h.map (·.dealing) = ds ∧ Passes p (depth + 1) s w h w' := by
  induction ds generalizing w with
  | nil => exact ⟨[], w, rfl, .nil w⟩
  | cons d ds ih =>
    obtain ⟨typed, rest⟩ := List.forall_mem_cons.1 typed
    have keys := (reached.wired (wired_new document)).listenerKeys
    obtain ⟨a, w₁, dealt⟩ := exists_dealt silent depth d typed keys unmounted
    have first : Passes p (depth + 1) s w [⟨d, a⟩] w₁ := .cons dealt (.nil w₁)
    obtain ⟨h, w', same, passes⟩ :=
      ih rest (reached.trans first.path) (dealt.account.unmounted unmounted)
    exact ⟨⟨d, a⟩ :: h, w', by rw [List.map_cons, same], .cons dealt passes⟩

/-- Listeners ask for nothing, and nobody listens to the component but they.  After
    any dealings with a state and its component those listen who came and did not
    go, in the order of their coming and under numbers of their own, and the state
    has the value written last.  A write answers whether the state is there and held
    another value.  If so, it changes the state and nothing else in the client, tells
    those who listen to the state and then those who listen to the component, each
    once, and runs nothing else; if not, it changes and runs nothing.  No other
    dealing runs anything. -/
theorem dealings_tell {document : Document} {s : Setter} {ds : List (Dealing P)}
    (typed : ∀ d ∈ ds, d.Typed s.kind) {w : World P μ}
    (reached : Path (Client.new document) w.client)
    (unmounted : w.client.Unmounted s.component) :
    ∃ h w', h.map (·.dealing) = ds ∧
      (∀ scope, (dealings s ds).run ((p.invoke (depth + 1)).serve scope) w = some (h, w')) ∧
      (w.client.abandoned = false → p.run (depth + 1) (dealings s ds) w = some (h, w')) ∧
      ∀ before after, h = before ++ after → ∃ w₁, Passes p (depth + 1) s w before w₁ ∧
        Account s w.client before w₁.client ∧ Lined w₁.client ∧
        (∀ slot, w.client.stateSlot? s = some slot →
          slot.value.kind = s.kind ∨ (∃ e ∈ before, e.changed = true) →
            w₁.client.read s = some (lastWritten slot.value before)) ∧
        ∀ e rest, after = e :: rest → ∃ w₂, e.dealing.Does p s w₁ e.answer w₂ ∧
          Passes p (depth + 1) s w₂ rest w' := by
  obtain ⟨h, w', rfl, passes⟩ := exists_passes silent depth typed reached unmounted
  refine ⟨h, w', rfl, passes.ran, passes.outside, ?_⟩
  rintro before after rfl
  have upTo {w₁ : World P μ} (passes : Passes p (depth + 1) s w before w₁) :
      Account s w.client before w₁.client ∧ Lined w₁.client ∧
        ∀ slot, w.client.stateSlot? s = some slot →
          slot.value.kind = s.kind ∨ (∃ e ∈ before, e.changed = true) →
            w₁.client.read s = some (lastWritten slot.value before) :=
    ⟨passes.account, (reached.trans passes.path).lined,
      fun _ found typed => passes.account.read found typed⟩
  cases after with
  | nil =>
    rw [List.append_nil] at passes
    obtain ⟨account, lined, read⟩ := upTo passes
    exact ⟨w', passes, account, lined, read, fun _ _ h => nomatch h⟩
  | cons e rest =>
    obtain ⟨w₁, w₂, first, dealt, last⟩ := passes.split
    obtain ⟨account, lined, read⟩ := upTo first
    refine ⟨w₁, first, account, lined, read, ?_⟩
    rintro e' rest' same
    obtain ⟨rfl, rfl⟩ := List.cons.inj same
    exact ⟨w₂, dealt.does, last⟩

end

/-! ### A journal of notices -/

/-- Listeners have names. -/
abbrev named : Callbacks where
  Body := Unit
  Effect := Unit
  Cleanup := Unit
  Listener := String
  View := Unit

/-- Listeners that write their names into a journal. -/
def journalProgram : Program named (List String) where
  render _ _ := return .ok ""
  effect _ := return none
  cleanup _ := return ()
  listener name := Routine.change (· ++ [name])
  view _ _ := return ""

/-- The client when a component has been rendered that has a state. -/
def withState : Client named :=
  (((Client.new {}).beginPass "a").2.useState "a" (.int 0)).2.endPass none

theorem path_withState : Path (Client.new {}) withState :=
  .endPass (.change (.beginPass (.refl _) "a") (.useState _ "a" (.int 0))) none

/-- Listeners come and go between writes. -/
def comeAndGo : List (Dealing named) :=
  [.subscribe "component", .listen "first", .listen "second", .set (.int 1), .set (.int 1),
    .unlisten 1, .update fun _ => .int 2, .unsubscribe 0, .set (.int 3), .get]

theorem journalProgram_silent (name : String) : (journalProgram.listener name).Silent :=
  fun _ => trivial

theorem comeAndGo_typed : ∀ d ∈ comeAndGo, d.Typed .int := by
  simp [comeAndGo, Dealing.Typed, Value.kind]

theorem withState_unmounted : withState.Unmounted "a" := fun _ listed => nomatch listed

/-- Who is told is told in order, and only of changes. -/
theorem comeAndGo_told :
    (∀ name, (journalProgram.listener name).Silent) ∧ (∀ d ∈ comeAndGo, d.Typed .int) ∧
      Path (Client.new {}) withState ∧ withState.Unmounted "a" ∧
      ∃ h w', journalProgram.run 1 (dealings ⟨"a", 0, .int⟩ comeAndGo) ⟨withState, []⟩
          = some (h, w') ∧
        w'.memory = ["first", "second", "component", "second", "component", "second"] := by
  have law := dealings_tell journalProgram_silent 0 (s := ⟨"a", 0, .int⟩) comeAndGo_typed
    (w := ⟨withState, []⟩) path_withState withState_unmounted
  obtain ⟨h, w', _, _, ran, _⟩ := law
  refine ⟨journalProgram_silent, comeAndGo_typed, path_withState, withState_unmounted, h, w',
    ran rfl, ?_⟩
  have journal : (journalProgram.run 1 (dealings ⟨"a", 0, .int⟩ comeAndGo) ⟨withState, []⟩).map
      (·.2.memory) = some ["first", "second", "component", "second", "component", "second"] := by
    decide +kernel
  rw [ran rfl] at journal
  exact Option.some.inj journal

end PageTree.Live
