/-
  PageTree/Live/Routine.lean
  ==========================
  **What callbacks do.**

  A callback works on the memory of its program and sends requests to the
  client; what it does after a request may depend on the answer.  A routine is
  such a course of action as data: it is finite along every path, and all its
  dealings with the client are requests.
-/
import PageTree.Live.Client
import PageTree.Live.Document.Step

namespace PageTree.Live

/-- What a navigation did. -/
inductive Navigation where
  /-- The container shows the markup of the matching route. -/
  | rendered (m : RouteMatch)
  /-- The container showed that markup already. -/
  | unchanged (m : RouteMatch)
  | notFound
  | missingContainer
deriving DecidableEq

/-- What a program may ask of the client, by the type of the answer.  Hooks are
    called for the component whose body is running, or, if they are ambient, for
    the component being rendered. -/
inductive Request (P : Callbacks) : Type → Type where
  | install : Request P Bool
  | isInstalled : Request P Bool
  | reset : Request P Unit
  /-- Gives the client up.  It is gone once no request is being served. -/
  | abandon : Request P Unit
  | currentComponent : Request P (Option String)
  /-- How many components have hook records, how many are mounted, and how many
      routers there are. -/
  | counts : Request P (Nat × Nat × Nat)
  | mount (id : String) (body : P.Body) : Request P (Except Fault Nat)
  | unmount (number : Nat) : Request P Unit
  | dropHandle (number : Nat) : Request P Unit
  | isMounted (id : String) : Request P Bool
  /-- The element of an instance and whether it is mounted. -/
  | describe (number : Nat) : Request P (Option (String × Bool))
  | pass (id : String) (body : P.Body) : Request P (Except Fault String)
  | cleanUp (id : String) : Request P Unit
  | flush (id : String) : Request P Unit
  | stateOf (id : String) : Request P ComponentState
  | subscribe (id : String) (listener : P.Listener) : Request P Nat
  | unsubscribe (id : String) (listener : Nat) : Request P Bool
  | notify (id : String) : Request P Unit
  | notifyAll : Request P Unit
  | useState (ambient : Bool) (initial : Value) : Request P (Except Fault (Value × Setter))
  | useCell (ambient : Bool) (initial : Value) : Request P (Except Fault CellRef)
  | useEffect (ambient : Bool) (deps : Option Deps) (effect : P.Effect) :
      Request P (Except Fault Unit)
  | useContext (ambient : Bool) (id : String) (kind : ValueKind) : Request P (Except Fault Value)
  | read (s : Setter) : Request P (Option Value)
  | write (s : Setter) (v : Value) : Request P Bool
  | listen (s : Setter) (listener : P.Listener) : Request P (Option Nat)
  | unlisten (s : Setter) (listener : Nat) : Request P Bool
  | readCell (r : CellRef) : Request P Value
  | writeCell (r : CellRef) (v : Value) : Request P Unit
  | createContext (id : String) (initial : Value) : Request P (Except Fault ContextHandle)
  | openContext (id : String) (kind : ValueKind) : Request P (Except Fault ContextHandle)
  | readContext (h : ContextHandle) : Request P (Except Fault Value)
  | writeContext (h : ContextHandle) (v : Value) : Request P (Except Fault Unit)
  | deleteContext (id : String) : Request P Bool
  | hasContext (id : String) : Request P Bool
  | createRouter (settings : RouterSettings) (routes : List (Route P.View)) : Request P Unit
  | removeRouter (id : String) : Request P Bool
  | navigate (id path : String) : Request P (Except Fault Navigation)
  | routerContext (id : String) : Request P (Option RouterContext)
  | reversePath (id pattern : String) (params : RouteParams) : Request P (Option String)
  | document (step : DocumentStep) : Request P Json

/-- A course of action that ends with an answer. -/
inductive Routine (P : Callbacks) (μ : Type) (α : Type) : Type 1 where
  | done (a : α)
  /-- Works on the memory of the program. -/
  | own {β : Type} (f : μ → β × μ) (next : β → Routine P μ α)
  | call {β : Type} (r : Request P β) (next : β → Routine P μ α)

namespace Routine

variable {P : Callbacks} {μ α β : Type}

/-- One routine after another. -/
def bind : Routine P μ α → (α → Routine P μ β) → Routine P μ β
  | done a, k => k a
  | own f next, k => own f fun b => (next b).bind k
  | call r next, k => call r fun b => (next b).bind k

instance : Monad (Routine P μ) where
  pure := done
  bind := bind

def request (r : Request P α) : Routine P μ α := call r done

def look (f : μ → α) : Routine P μ α := own (fun m => (f m, m)) done

def change (f : μ → μ) : Routine P μ Unit := own (fun m => ((), f m)) done

/-- Writes the value that follows that of a state into the state; answers
    whether the state changed. -/
def update (s : Setter) (next : Value → Value) : Routine P μ Bool := do
  match ← request (.read s) with
  | none => return false
  | some before => request (.write s (next before))

/-- Writes the value that follows that of a context into the context. -/
def updateContext (h : ContextHandle) (next : Value → Value) :
    Routine P μ (Except Fault Unit) := do
  match ← request (.readContext h) with
  | .error e => return .error e
  | .ok before => request (.writeContext h (next before))

end Routine

/-- A program: what its callbacks do. -/
structure Program (P : Callbacks) (μ : Type) : Type 1 where
  /-- Renders a component, given its id. -/
  render : String → P.Body → Routine P μ (Except Fault String)
  /-- Runs an effect; the answer undoes it. -/
  effect : P.Effect → Routine P μ (Option P.Cleanup)
  cleanup : P.Cleanup → Routine P μ Unit
  listener : P.Listener → Routine P μ Unit
  /-- Renders a route, given its parameters. -/
  view : P.View → RouteParams → Routine P μ String

end PageTree.Live
