/-
  PageTree/Live/Service.lean
  ==========================
  **How the client serves requests.**

  While a request is served, callbacks run, and these may send requests of their
  own.  So every service is given the means to run callbacks, `Calls`.  `invoke`
  ties the knot: callbacks nested less than `depth` deep are run by serving
  their requests, deeper ones give no answer.
-/
import PageTree.Live.Routine

namespace PageTree.Live

/-- The client together with the memory of the program. -/
structure World (P : Callbacks) (μ : Type) where
  client : Client P
  memory : μ

/-- A course of events: it changes the world and gives an answer, unless
    callbacks are nested too deep. -/
abbrev Act (P : Callbacks) (μ : Type) (α : Type) := StateT (World P μ) Option α

namespace Act

variable {P : Callbacks} {μ α : Type}

def look (f : Client P → α) : Act P μ α := do return f (← get).client

def change (f : Client P → Client P) : Act P μ Unit :=
  modify fun w => { w with client := f w.client }

/-- Changes the client and gives an answer. -/
def through (f : Client P → α × Client P) : Act P μ α :=
  modifyGet fun w => ((f w.client).1, { w with client := (f w.client).2 })

/-- Changes the memory and gives an answer. -/
def own (f : μ → α × μ) : Act P μ α :=
  modifyGet fun w => ((f w.memory).1, { w with memory := (f w.memory).2 })

end Act

/-- The means to run callbacks. -/
structure Calls (P : Callbacks) (μ : Type) where
  render : String → P.Body → Act P μ (Except Fault String)
  effect : P.Effect → Act P μ (Option P.Cleanup)
  cleanup : P.Cleanup → Act P μ Unit
  listener : P.Listener → Act P μ Unit
  view : P.View → RouteParams → Act P μ String

namespace Calls

variable {P : Callbacks} {μ α : Type}

/-- The means that never give an answer. -/
def none : Calls P μ where
  render _ _ := failure
  effect _ := failure
  cleanup _ := failure
  listener _ := failure
  view _ _ := failure

/-! ### Passes and effects -/

def undo (calls : Calls P μ) (due : Due P) : Act P μ Unit := do
  Act.change (·.note (.undone due))
  calls.cleanup due.cleanup

/-- Takes cleanups that are due from the client and runs them one after
    another. -/
def undoAll (calls : Calls P μ) (take : Client P → List (Due P) × Client P) : Act P μ Unit := do
  (← Act.through take).forM calls.undo

/-- Renders a component; before and after, the same component is current. -/
def runPass (calls : Calls P μ) (id : String) (body : P.Body) : Act P μ (Except Fault String) := do
  let previous ← Act.through (·.beginPass id)
  let result ← calls.render id body
  Act.change (·.endPass previous)
  return result

/-- Runs a waiting effect: first the cleanup of its last run, then the effect.
    Its cleanup is stored, or run at once if there is no slot for it any more. -/
def runEffect (calls : Calls P μ) (e : PendingEffect P) : Act P μ Unit := do
  calls.undoAll (·.takeCleanup e)
  let cleanup ← calls.effect e.effect
  calls.undoAll (·.settleEffect e cleanup)

def flush (calls : Calls P μ) (id : String) : Act P μ Unit := do
  let queued ← Act.through (·.takePending id)
  queued.forM calls.runEffect

/-- Renders a component and runs the effects it queued. -/
def pass (calls : Calls P μ) (id : String) (body : P.Body) : Act P μ (Except Fault String) := do
  let result ← calls.runPass id body
  calls.flush id
  return result

/-- Forgets a component after running the cleanups that are due. -/
def cleanUp (calls : Calls P μ) (id : String) : Act P μ Unit := calls.undoAll (·.forget id)

/-! ### Renders of mounted components -/

/-- Renders an instance into its element and runs the effects it queued.  If it
    fails, the effects are dropped and the element keeps its markup.  Nothing
    happens if the instance is not mounted or being rendered already. -/
def renderInstance (calls : Calls P μ) (n : Nat) : Act P μ (Except Fault Unit) := do
  let some i ← Act.through (·.beginRender n) | return .ok ()
  let result ← calls.runPass i.element i.body
  Act.change (·.endRender n)
  match result with
  | .error e =>
    Act.change (·.discardPending i.element)
    return .error e
  | .ok html =>
    if ← Act.through (·.setHtml i.element html) then
      calls.flush i.element
      return .ok ()
    else
      Act.change (·.discardPending i.element)
      return .error (.noElement i.element)

/-- Reacts to a change.  A render that fails is not reported. -/
def react (calls : Calls P μ) : Reaction P → Act P μ Unit
  | .call l => calls.listener l
  | .rerender n => do
    let _ ← calls.renderInstance n

def notify (calls : Calls P μ) (id : String) : Act P μ Unit := do
  (← Act.look (·.reactionsOf id)).forM calls.react

def notifyAll (calls : Calls P μ) : Act P μ Unit := do
  (← Act.look (·.allReactions)).forM calls.react

/-! ### States and contexts -/

/-- Writes a state.  If it changes, the listeners of the state are told and then
    those of the component. -/
def write (calls : Calls P μ) (s : Setter) (v : Value) : Act P μ Bool := do
  match ← Act.through (·.store s v) with
  | .none => return false
  | some listeners =>
    listeners.forM calls.listener
    calls.notify s.component
    return true

/-- Writes a context and tells the listeners of all components. -/
def writeContext (calls : Calls P μ) (h : ContextHandle) (v : Value) :
    Act P μ (Except Fault Unit) := do
  match ← Act.through (·.writeContext h v) with
  | .error e => return .error e
  | .ok () =>
    calls.notifyAll
    return .ok ()

/-! ### Mounting -/

/-- Stops an instance: the cleanups that are due run and its subscription ends.
    The component is forgotten if no listener is left for it. -/
def tearDown (calls : Calls P μ) (n : Nat) : Act P μ Unit := do
  let some i ← Act.look (·.instance? n) | return ()
  calls.undoAll (·.detach n i)
  if ← Act.through (·.endSubscription n) then calls.cleanUp i.element

/-- Stops whatever is mounted on an element. -/
def unmountElement (calls : Calls P μ) (id : String) : Act P μ Unit := do
  (← Act.through (·.takeMounted id)).forM calls.tearDown

/-- Stops an instance by its handle; nothing happens the second time, or if the
    client is gone. -/
def unmount (calls : Calls P μ) (n : Nat) : Act P μ Unit := do
  let mounted ← Act.look fun c => !c.released && (c.instance? n).any (·.mounted)
  if mounted then calls.tearDown n

/-- Mounts a component on an element in place of the one mounted there.  If the
    first render fails, nothing stays mounted. -/
def mount (calls : Calls P μ) (id : String) (body : P.Body) : Act P μ (Except Fault Nat) := do
  if !(← Act.look (·.document.has id)) then return .error (.noElement id)
  calls.unmountElement id
  let n ← Act.through (·.addInstance id body)
  match ← calls.renderInstance n with
  | .error e =>
    calls.tearDown n
    return .error e
  | .ok () => return .ok n

/-- Stops everything: the tables are emptied and the cleanups that are due run. -/
def reset (calls : Calls P μ) : Act P μ Unit := calls.undoAll (·.clear)

/-! ### Navigation -/

/-- Stops and forgets the components on the elements nested in an element. -/
def purge (calls : Calls P μ) (id : String) : Act P μ Unit := do
  (← Act.look (·.document.descendants id)).forM fun nested => do
    calls.unmountElement nested
    calls.cleanUp nested

/-- Puts the markup of a route into the container of a router, unless the
    container shows it already.  Components below the container are stopped,
    unless the router is caching, and the scripts in the markup are executed. -/
def fillContainer (calls : Calls P μ) (settings : RouterSettings) (m : RouteMatch) (html : String) :
    Act P μ Navigation := do
  if (← Act.look (·.document.html? settings.container)) == some html then
    return .unchanged m
  if !settings.cache then calls.purge settings.container
  Act.change (·.modifyDocument (·.setHtml settings.container html))
  Act.change (·.modifyDocument (·.execute settings.container))
  return .rendered m

/-- Navigates a router to a path.  Without a container or a matching route
    nothing happens. -/
def navigate (calls : Calls P μ) (id path : String) : Act P μ (Except Fault Navigation) := do
  let some destination ← Act.through (·.findRoute id path) | return .error (.noRouter id)
  if !(← Act.look (·.document.has destination.settings.container)) then
    return .ok .missingContainer
  let some (m, view) := destination.target | return .ok .notFound
  Act.change (·.modifyDocument (·.visit path))
  let html ← calls.view view m.params
  Act.change (·.moveRouter id path m.params)
  return .ok (← calls.fillContainer destination.settings m html)

/-! ### Requests -/

/-- The component that a hook is called for: the one being rendered if the call
    is ambient, else the one whose body is running, if there is one. -/
def hookTarget (scope : Option String) (ambient : Bool) (c : Client P) : Option String :=
  if ambient then c.current else scope.or c.current

/-- Calls a hook for the component it is meant for. -/
def hook (scope : Option String) (ambient : Bool) (name : String)
    (f : String → Client P → Except Fault α × Client P) : Act P μ (Except Fault α) := do
  match ← Act.look (hookTarget scope ambient) with
  | .none => return .error (.hookOutsidePass name)
  | some id => Act.through (f id)

/-- Serves a request of a callback; `scope` is the component whose body it is. -/
def serve (calls : Calls P μ) (scope : Option String) {β : Type} : Request P β → Act P μ β
  | .install => Act.through (·.install)
  | .isInstalled => Act.look (·.installed)
  | .reset => calls.reset
  | .abandon => Act.change (·.abandon)
  | .currentComponent => Act.look (·.current)
  | .counts => Act.look fun c => (c.records.size, c.mounted.size, c.routers.size)
  | .mount id body => calls.mount id body
  | .unmount n => calls.unmount n
  | .dropHandle n => Act.change (·.dropHandle n)
  | .isMounted id => Act.look (·.isMounted id)
  | .describe n => Act.look fun c => (c.instance? n).map fun i => (i.element, i.mounted)
  | .pass id body => calls.pass id body
  | .cleanUp id => calls.cleanUp id
  | .flush id => calls.flush id
  | .stateOf id => Act.look (·.stateOf id)
  | .subscribe id l => Act.through (·.subscribe id (.call l))
  | .unsubscribe id n => Act.through (·.unsubscribe id n)
  | .notify id => calls.notify id
  | .notifyAll => calls.notifyAll
  | .useState ambient v => hook scope ambient "use_state" fun id c => c.useState id v
  | .useCell ambient v => hook scope ambient "use_ref" fun id c => c.useCell id v
  | .useEffect ambient deps e =>
    hook scope ambient "use_effect" fun id c => (.ok (), c.useEffect id deps e)
  | .useContext ambient id kind =>
    hook scope ambient "use_context" fun _ c => (c.contextValue id kind, c)
  | .read s => Act.look (·.read s)
  | .write s v => calls.write s v
  | .listen s l => Act.through (·.listen s l)
  | .unlisten s n => Act.through (·.unlisten s n)
  | .readCell r => Act.look (·.cellValue r.cell)
  | .writeCell r v => Act.change (·.writeCell r v)
  | .createContext id v => Act.through (·.createContext id v)
  | .openContext id kind => Act.look (·.openContext id kind)
  | .readContext h => Act.look fun c => c.contextValue h.id h.kind
  | .writeContext h v => calls.writeContext h v
  | .deleteContext id => Act.through (·.deleteContext id)
  | .hasContext id => Act.look (·.contexts.contains id)
  | .createRouter settings routes => Act.change (·.createRouter settings routes)
  | .removeRouter id => Act.through (·.removeRouter id)
  | .navigate id path => calls.navigate id path
  | .routerContext id => Act.look (·.routerContext id)
  | .reversePath id pattern params => Act.look (·.reverse? id pattern params)
  | .document step => Act.through fun c =>
      ((step.run c.document).1, { c with document := (step.run c.document).2 })

/-- Serves a request sent outside of all callbacks.  A client that was given up
    meanwhile is gone once the request has been served. -/
def serveOutside (calls : Calls P μ) {β : Type} (r : Request P β) : Act P μ β := do
  let answer ← calls.serve .none r
  Act.change (·.settle)
  return answer

end Calls

/-- Carries out a routine, given how requests are served. -/
def Routine.run {P : Callbacks} {μ α : Type} (serve : {β : Type} → Request P β → Act P μ β) :
    Routine P μ α → Act P μ α
  | .done a => pure a
  | .own f next => Act.own f >>= fun b => (next b).run serve
  | .call r next => serve r >>= fun b => (next b).run serve

/-- Carrying out one routine after another is carrying out each in turn. -/
theorem Routine.run_bind {P : Callbacks} {μ α β : Type}
    (serve : {γ : Type} → Request P γ → Act P μ γ) (m : Routine P μ α) (k : α → Routine P μ β) :
    (m.bind k).run serve = m.run serve >>= fun a => (k a).run serve := by
  induction m with
  | done a => simp [Routine.bind, Routine.run]
  | own f next ih => simp [Routine.bind, Routine.run, ih]
  | call r next ih => simp [Routine.bind, Routine.run, ih]

namespace Program

variable {P : Callbacks} {μ α : Type}

/-- Carries out a routine of a program, given the means to run callbacks. -/
def perform (calls : Calls P μ) (scope : Option String) (m : Routine P μ α) : Act P μ α :=
  m.run (calls.serve scope)

/-- The means to run callbacks nested less than `depth` deep. -/
def invoke (p : Program P μ) : (depth : Nat) → Calls P μ
  | 0 => Calls.none
  | depth + 1 =>
    let calls := p.invoke depth
    { render := fun id body => perform calls (some id) (p.render id body)
      effect := fun e => perform calls none (p.effect e)
      cleanup := fun k => perform calls none (p.cleanup k)
      listener := fun l => perform calls none (p.listener l)
      view := fun v params => perform calls none (p.view v params) }

/-- Carries out a routine outside of all callbacks, which may be nested `depth`
    deep. -/
def run (p : Program P μ) (depth : Nat) (m : Routine P μ α) (w : World P μ) :
    Option (α × World P μ) :=
  m.run (p.invoke depth).serveOutside w

end Program

end PageTree.Live
