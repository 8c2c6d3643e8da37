/-
  PageTree/Live/Client.lean
  =========================
  **The state of the client.**

  The client renders components into a document.  It keeps a hook record for
  every component, the listeners that are told when a component changes, the
  contexts, the routers and the components mounted on elements.  The functions
  here look at the state and change it without running any callback.
-/
import PageTree.Live.Document
import PageTree.Live.Fault
import PageTree.Live.Hook
import PageTree.Route.Router

namespace PageTree.Live

/-- What happens when a component is told to change. -/
inductive Reaction (P : Callbacks) where
  | call (listener : P.Listener)
  | rerender (number : Nat)

/-- A component mounted on an element. -/
structure Instance (P : Callbacks) where
  element : String
  body : P.Body
  mounted : Bool := true
  rendering : Bool := false
  /-- The listener that renders the component again. -/
  listener : Option Nat := none
  /-- Whether the handle given out at mounting is still held. -/
  held : Bool := true

structure Client (P : Callbacks) where
  document : Document
  installed : Bool := false
  /-- The component being rendered. -/
  current : Option String := none
  records : OrderedMap (HookRecord P) := ∅
  /-- The number of the next record to be made. -/
  nextRecord : Nat := 0
  listeners : OrderedMap (List (Nat × Reaction P)) := ∅
  contexts : OrderedMap Value := ∅
  routers : OrderedMap (Router P.View) := ∅
  /-- The number of the instance mounted on an element. -/
  mounted : OrderedMap Nat := ∅
  pending : List (PendingEffect P) := []
  nextListener : Nat := 0
  /-- The instances made so far, by number. -/
  instances : List (Instance P) := []
  /-- The contents of the cells made so far, by number. -/
  cells : List Value := []
  /-- What has become of effects so far, the latest first.  Nothing depends on
      it. -/
  history : List (Event P) := []
  /-- Whether the client has been given up.  It stays until the request being
      served is done. -/
  abandoned : Bool := false
  /-- Whether the client is gone; handles to it are then without effect. -/
  released : Bool := false

namespace Client

variable {P : Callbacks}

def new (document : Document) : Client P := { document }

/-! ### Installing -/

/-- Marks the client as installed; answers whether it was not. -/
def install (c : Client P) : Bool × Client P := (!c.installed, { c with installed := true })

/-! ### Listeners of components -/

def listenersOf (c : Client P) (id : String) : List (Nat × Reaction P) :=
  (c.listeners.get? id).getD []

def reactionsOf (c : Client P) (id : String) : List (Reaction P) :=
  (c.listenersOf id).map (·.2)

/-- What happens when all components change. -/
def allReactions (c : Client P) : List (Reaction P) :=
  c.listeners.entries.flatMap fun (_, ls) => ls.map (·.2)

/-- Subscribes to the changes of a component; answers with the number of the
    listener. -/
def subscribe (c : Client P) (id : String) (r : Reaction P) : Nat × Client P :=
  let n := c.nextListener
  (n, { c with
    nextListener := n + 1
    listeners := c.listeners.insert id (c.listenersOf id ++ [(n, r)]) })

/-- Ends a subscription; answers whether there was one. -/
def unsubscribe (c : Client P) (id : String) (n : Nat) : Bool × Client P :=
  let before := c.listenersOf id
  let after := before.filter (·.1 != n)
  (after.length != before.length,
    { c with
      listeners := if after.isEmpty then c.listeners.erase id else c.listeners.insert id after })

/-! ### Hook records -/

/-- The hook record of a component, a new one if there is none. -/
def recordOf (c : Client P) (id : String) : HookRecord P :=
  (c.records.get? id).getD { number := c.nextRecord }

def modifyRecord (c : Client P) (id : String) (f : HookRecord P → HookRecord P) : Client P :=
  { c with records := c.records.modify id f }

/-- Starts a pass of a component; answers with the component that was being
    rendered. -/
def beginPass (c : Client P) (id : String) : Option String × Client P :=
  (c.current,
    { c with
      current := some id
      records := c.records.modify id fun r => { r with cursor := 0 } })

def endPass (c : Client P) (previous : Option String) : Client P :=
  { c with current := previous }

/-- Claims the next hook position of a component. -/
def claim (c : Client P) (id : String) : Nat × Client P :=
  let r := c.recordOf id
  (r.cursor, { c with
    records := c.records.insert id { r with cursor := r.cursor + 1 }
    nextRecord := if c.records.contains id then c.nextRecord else c.nextRecord + 1 })

/-- Takes the effects of a component out of those that wait. -/
def takePending (c : Client P) (id : String) : List (PendingEffect P) × Client P :=
  let (ours, others) := c.pending.partition (·.component == id)
  (ours, { c with pending := others })

def discardPending (c : Client P) (id : String) : Client P := (c.takePending id).2

def note (c : Client P) (e : Event P) : Client P := { c with history := e :: c.history }

/-- The cleanups that are due when all components go away. -/
def outstanding (c : Client P) : List (Due P) := c.records.entries.flatMap (·.2.cleanups)

/-- The effect slot that a waiting effect belongs to, and its name. -/
def effectSlot? (c : Client P) (e : PendingEffect P) : Option (SlotName × EffectSlot P) :=
  (c.records.get? e.component).bind fun r =>
    (r.effects.get? e.index).map fun s => (⟨r.number, e.index⟩, s)

def modifyEffect (c : Client P) (e : PendingEffect P) (f : EffectSlot P → EffectSlot P) :
    Client P :=
  c.modifyRecord e.component fun r => { r with effects := r.effects.modify e.index f }

/-- Takes the cleanup of the last run, if it is due, out of the slot of a waiting
    effect. -/
def takeCleanup (c : Client P) (e : PendingEffect P) : List (Due P) × Client P :=
  (((c.effectSlot? e).bind fun s => s.2.cleanup.map (Due.mk (some s.1))).toList,
    c.modifyEffect e fun s => { s with cleanup := none })

/-- Stores the cleanup of a run in the slot of its effect.  If there is no such
    slot any more, the cleanup is due at once. -/
def settleEffect (c : Client P) (e : PendingEffect P) (cleanup : Option P.Cleanup) :
    List (Due P) × Client P :=
  match c.effectSlot? e with
  | some s =>
    ([], (c.note (.ran s.1 s.2.cleanup cleanup)).modifyEffect e
      fun _ => { cleanup, deps := e.deps })
  | none => ((cleanup.map (Due.mk none)).toList, c.note (.stray cleanup))

/-- Forgets a component: its record, the effects that wait and its listeners.
    Answers with the cleanups that are due. -/
def forget (c : Client P) (id : String) : List (Due P) × Client P :=
  let c' := c.discardPending id
  ((c.recordOf id).cleanups,
    { c' with records := c.records.erase id, listeners := c.listeners.erase id })

def stateOf (c : Client P) (id : String) : ComponentState :=
  let r := c.recordOf id
  { cursor := r.cursor
    states := r.states.indices
    effects := r.effects.indices
    cells := r.cells.indices
    listeners := (c.listenersOf id).length }

/-! ### Hooks -/

/-- The state at the next position of a component, made from `initial` when the
    position is reached first. -/
def useState (c : Client P) (id : String) (initial : Value) :
    Except Fault (Value × Setter) × Client P :=
  let (i, c) := c.claim id
  let slot := ((c.recordOf id).states.get? i).getD { value := initial }
  let c := c.modifyRecord id fun r => { r with states := r.states.insert i slot }
  if slot.value.kind = initial.kind then (.ok (slot.value, ⟨id, i, initial.kind⟩), c)
  else (.error (.hookChanged id i), c)

/-- Queues an effect at the next position of a component, if it is due. -/
def useEffect (c : Client P) (id : String) (deps : Option Deps) (effect : P.Effect) :
    Client P :=
  let (i, c) := c.claim id
  let slot := ((c.recordOf id).effects.get? i).getD {}
  let c := c.modifyRecord id fun r => { r with effects := r.effects.insert i slot }
  if Deps.isDue deps slot.deps then
    { c with pending := c.pending ++ [⟨id, i, effect, deps⟩] }
  else c

def cellValue (c : Client P) (cell : Nat) : Value := c.cells.getD cell (.int 0)

/-- The cell at the next position of a component, made from `initial` when the
    position is reached first. -/
def useCell (c : Client P) (id : String) (initial : Value) :
    Except Fault CellRef × Client P :=
  let (i, c) := c.claim id
  match (c.recordOf id).cells.get? i with
  | some cell =>
    if (c.cellValue cell).kind = initial.kind then (.ok ⟨cell, initial.kind⟩, c)
    else (.error (.hookChanged id i), c)
  | none =>
    let cell := c.cells.length
    let c := c.modifyRecord id fun r => { r with cells := r.cells.insert i cell }
    (.ok ⟨cell, initial.kind⟩, { c with cells := c.cells ++ [initial] })

def writeCell (c : Client P) (r : CellRef) (v : Value) : Client P :=
  if v.kind = r.kind then { c with cells := c.cells.set r.cell v } else c

/-! ### Setters -/

def stateSlot? (c : Client P) (s : Setter) : Option (StateSlot P) :=
  (c.records.get? s.component).bind fun r => r.states.get? s.index

def modifyState (c : Client P) (s : Setter) (f : StateSlot P → StateSlot P) : Client P :=
  c.modifyRecord s.component fun r => { r with states := r.states.modify s.index f }

/-- The value a setter would replace. -/
def read (c : Client P) (s : Setter) : Option Value :=
  (c.stateSlot? s).bind fun slot => if slot.value.kind = s.kind then some slot.value else none

/-- Stores a value; answers with the listeners of the state, or nothing if the
    state is gone or holds an equal value. -/
def store (c : Client P) (s : Setter) (v : Value) : Option (List P.Listener) × Client P :=
  match c.stateSlot? s with
  | none => (none, c)
  | some slot =>
    if v.kind ≠ s.kind ∨ slot.value.same v then (none, c)
    else (some (slot.listeners.map (·.2)), c.modifyState s fun slot => { slot with value := v })

/-- Subscribes to the changes of a state; answers with the number of the
    listener.  A number is used up also if the state is gone. -/
def listen (c : Client P) (s : Setter) (l : P.Listener) : Option Nat × Client P :=
  let n := c.nextListener
  ((c.stateSlot? s).map fun _ => n,
    { c with nextListener := n + 1 }.modifyState s
      fun slot => { slot with listeners := slot.listeners ++ [(n, l)] })

/-- Ends a subscription to a state; answers whether there was one. -/
def unlisten (c : Client P) (s : Setter) (n : Nat) : Bool × Client P :=
  ((c.stateSlot? s).any fun slot => slot.listeners.any (·.1 == n),
    c.modifyState s fun slot => { slot with listeners := slot.listeners.filter (·.1 != n) })

/-! ### Contexts -/

/-- The value of a context, as long as it is of the given kind. -/
def contextValue (c : Client P) (id : String) (kind : ValueKind) : Except Fault Value :=
  match c.contexts.get? id with
  | none => .error (.noContext id)
  | some v => if v.kind = kind then .ok v else .error (.contextKind id)

/-- Makes a context; one that is there already keeps its value. -/
def createContext (c : Client P) (id : String) (initial : Value) :
    Except Fault ContextHandle × Client P :=
  let v := (c.contexts.get? id).getD initial
  (if v.kind = initial.kind then .ok ⟨id, initial.kind⟩ else .error (.contextKind id),
    { c with contexts := c.contexts.insert id v })

/-- A handle to a context that is there. -/
def openContext (c : Client P) (id : String) (kind : ValueKind) : Except Fault ContextHandle :=
  (c.contextValue id kind).map fun _ => ⟨id, kind⟩

/-- Writes a context without telling anyone. -/
def writeContext (c : Client P) (h : ContextHandle) (v : Value) :
    Except Fault Unit × Client P :=
  match c.contextValue h.id h.kind with
  | .error e => (.error e, c)
  | .ok _ =>
    if v.kind = h.kind then (.ok (), { c with contexts := c.contexts.insert h.id v })
    else (.error (.contextKind h.id), c)

/-- Removes a context; answers whether there was one. -/
def deleteContext (c : Client P) (id : String) : Bool × Client P :=
  (c.contexts.contains id, { c with contexts := c.contexts.erase id })

/-! ### Routers -/

/-- Makes a router; it takes the place of another one with the same id. -/
def createRouter (c : Client P) (settings : RouterSettings) (routes : List (Route P.View)) :
    Client P :=
  { c with routers := c.routers.insert settings.id (Router.new settings routes) }

/-- Removes a router; answers whether there was one. -/
def removeRouter (c : Client P) (id : String) : Bool × Client P :=
  (c.routers.contains id, { c with routers := c.routers.erase id })

def routerContext (c : Client P) (id : String) : Option RouterContext :=
  (c.routers.get? id).map (·.context)

/-- The path of a router's pattern, its parameters filled in. -/
def reverse? (c : Client P) (id pattern : String) (params : RouteParams) : Option String :=
  (c.routers.get? id).bind fun r => r.reverse? pattern params

/-- A route that was found for a path. -/
structure Destination (P : Callbacks) where
  settings : RouterSettings
  /-- The match and the view of its route, if a route matches. -/
  target : Option (RouteMatch × P.View)

/-- Finds the route of a router for a path; nothing if there is no such router. -/
def findRoute (c : Client P) (id path : String) : Option (Destination P) × Client P :=
  match c.routers.get? id with
  | none => (none, c)
  | some r =>
    let (found, r') := r.resolve path
    let target := found.bind fun m => r.routes[m.index]?.map fun route => (m, route.view)
    (some ⟨r.settings, target⟩, { c with routers := c.routers.insert id r' })

/-- Notes where a router has been navigated to, if it is still there. -/
def moveRouter (c : Client P) (id path : String) (params : RouteParams) : Client P :=
  { c with routers := c.routers.modify id fun r => r.moveTo path params }

/-! ### The document -/

def modifyDocument (c : Client P) (f : Document → Document) : Client P :=
  { c with document := f c.document }

/-- Gives an element new markup; answers whether there is such an element. -/
def setHtml (c : Client P) (id html : String) : Bool × Client P :=
  (c.document.has id, c.modifyDocument (·.setHtml id html))

/-! ### Mounted components -/

def instance? (c : Client P) (n : Nat) : Option (Instance P) := c.instances[n]?

def modifyInstance (c : Client P) (n : Nat) (f : Instance P → Instance P) : Client P :=
  { c with instances := c.instances.modify n f }

def isMounted (c : Client P) (id : String) : Bool := c.mounted.contains id

/-- Takes the number of the instance mounted on an element out of the table. -/
def takeMounted (c : Client P) (id : String) : Option Nat × Client P :=
  (c.mounted.get? id, { c with mounted := c.mounted.erase id })

/-- Makes an instance that renders into an element whenever the component is
    told to change, and enters it into the table; answers with its number. -/
def addInstance (c : Client P) (id : String) (body : P.Body) : Nat × Client P :=
  let n := c.instances.length
  let (listener, c) := c.subscribe id (.rerender n)
  (n, { c with
    instances := c.instances ++ [{ element := id, body, listener := some listener }]
    mounted := c.mounted.insert id n })

/-- Whether anything still refers to an instance: the table of mounted
    components, the handle given out at mounting or a render in progress. -/
def isReachable (c : Client P) (n : Nat) (i : Instance P) : Bool :=
  i.held || i.rendering || c.mounted.get? i.element == some n

/-- Starts a render of an instance; nothing if it is not mounted or being
    rendered already. -/
def beginRender (c : Client P) (n : Nat) : Option (Instance P) × Client P :=
  match c.instance? n with
  | none => (none, c)
  | some i =>
    if i.mounted && !i.rendering && c.isReachable n i then
      (some i, c.modifyInstance n fun i => { i with rendering := true })
    else (none, c)

def endRender (c : Client P) (n : Nat) : Client P :=
  c.modifyInstance n fun i => { i with rendering := false }

/-- Stops an instance and takes it out of the table, if it is the one there;
    answers with the cleanups that are due for its element. -/
def detach (c : Client P) (n : Nat) (i : Instance P) : List (Due P) × Client P :=
  let c := c.modifyInstance n fun i => { i with mounted := false }
  let c := if c.mounted.get? i.element == some n then
      { c with mounted := c.mounted.erase i.element }
    else c
  ((c.recordOf i.element).cleanups, c.modifyRecord i.element (·.withoutCleanups))

/-- Ends the subscription of an instance; answers whether no listener is left
    for its element. -/
def endSubscription (c : Client P) (n : Nat) : Bool × Client P :=
  match c.instance? n with
  | none => (false, c)
  | some i =>
    let c := match i.listener with
      | none => c
      | some l => (c.unsubscribe i.element l).2.modifyInstance n fun i => { i with listener := none }
    ((c.listenersOf i.element).isEmpty, c)

def dropHandle (c : Client P) (n : Nat) : Client P :=
  c.modifyInstance n fun i => { i with held := false }

/-! ### Starting over -/

/-- Stops all mounted instances and empties every table; answers with the
    cleanups that are due. -/
def clear (c : Client P) : List (Due P) × Client P :=
  let numbers := c.mounted.entries.map (·.2)
  (c.outstanding,
    { c with
      instances := numbers.foldl (fun is n => is.modify n fun i => { i with mounted := false })
        c.instances
      mounted := ∅
      records := ∅
      pending := []
      listeners := ∅
      contexts := ∅
      routers := ∅
      current := none
      installed := false })

def abandon (c : Client P) : Client P := { c with abandoned := true }

/-- Lets the client go: every table is dropped and no cleanup is due. -/
def release (c : Client P) : Client P :=
  { c with
    mounted := ∅
    records := ∅
    pending := []
    listeners := ∅
    contexts := ∅
    routers := ∅
    current := none
    installed := false
    released := true }

/-- Lets the client go, if it has been given up. -/
def settle (c : Client P) : Client P := if c.abandoned then c.release else c

end Client

end PageTree.Live
