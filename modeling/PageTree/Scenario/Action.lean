/-
  PageTree/Scenario/Action.lean
  =============================
  **Scenarios: expressions and actions.**

  A scenario puts the client through its paces.  It is written in a small
  language whose actions send requests to the client, keep what the client hands
  out in tables under names, and write a log.  Callbacks are lists of actions.
-/
import PageTree.Live.Document.Step
import PageTree.Live.Hook
import PageTree.Route.Pattern
import PageTree.Settings

namespace PageTree.Scenario

open PageTree.Live

inductive Expr where
  | literal (v : Value)
  | var (name : String)
  /-- The value that a setter would replace. -/
  | state (setter : String)
  | cell (name : String)
  | sum (a b : Expr)
  /-- The texts of the parts, joined. -/
  | concat (parts : List Expr)

instance : Inhabited Expr := ⟨.concat []⟩

/-- What an outline is asked of. -/
inductive Subject where
  | client
  | mount (name : String)
  | setter (name : String)
  | cell (name : String)
  | context (name : String)
  | router (name : String)

/-- What an effect depends on. -/
inductive Dependence where
  /-- Not given: the effect runs after every pass. -/
  | unknown
  | nothing
  | on (e : Expr)

/-- An action.  A name at the end, where there is one, is the name under which
    the outcome is kept. -/
inductive Action where
  /-- Logs the result of an action under a label. -/
  | shown (label : String) (a : Action)
  /-- Makes a failure of an action its result. -/
  | caught (a : Action)
  | log (text : Expr)
  | assign (value : Expr) (name : Option String)
  | branch (a b : Expr) (same different : List Action)
  | fail (message : Expr)
  | install
  | isInstalled
  | reset
  | abandon
  | current
  | outline (subject : Subject)
  | mount (id component : String) (name : Option String)
  | unmount (mount : String)
  | describe (mount : String)
  | isMounted (id : String)
  | pass (id component : String)
  | cleanUp (id : String)
  | flush (id : String)
  | stateOf (id : String)
  | isEmpty (id : String)
  | subscribe (id tag : String) (body : List Action) (name : Option String)
  | unsubscribe (id listener : String)
  | notify (id : String)
  | notifyAll
  | useState (ambient : Bool) (initial : Expr) (setter : Option String) (name : Option String)
  | useCell (ambient : Bool) (initial : Expr) (cell : Option String) (name : Option String)
  | useContext (ambient : Bool) (id : String) (kind : ValueKind) (name : Option String)
  | useEffect (ambient : Bool) (deps : Dependence) (body : List Action)
      (cleanup : Option (List Action))
  | read (setter : String)
  | write (setter : String) (value : Expr)
  | update (setter : String) (value : Expr)
  | listen (setter tag : String) (body : List Action) (name : Option String)
  | unlisten (setter listener : String)
  | readCell (cell : String)
  | writeCell (cell : String) (value : Expr)
  | sameCell (a b : String)
  | createContext (id : String) (initial : Expr) (name : Option String)
  | openContext (id : String) (kind : ValueKind) (name : Option String)
  | readContext (context : String)
  | writeContext (context : String) (value : Expr)
  | updateContext (context : String) (value : Expr)
  | deleteContext (id : String)
  | hasContext (id : String)
  /-- Makes a router; of a route its pattern, its actions and the parts of its
      markup are given.  The settings may be missing because they are malformed. -/
  | createRouter (settings : Option RouterSettings)
      (routes : List (String × List Action × List Expr)) (name : Option String)
  | removeRouter (id : String)
  | navigate (id path : String)
  | navigateBy (router path : String)
  | routerContext (id : String)
  | contextBy (router : String)
  | reversePath (id pattern : String) (params : RouteParams)
  | reverseBy (router pattern : String) (params : RouteParams)
  | document (step : DocumentStep)

instance : Inhabited Action := ⟨.install⟩

/-- A component: its actions, and the parts of its markup. -/
structure Component where
  actions : List Action := []
  html : List Expr := []

/-- The local variables of a list of actions, and the tag of its log entries. -/
structure Locals where
  tag : String := ""
  vars : OrderedMap Value := ∅

/-- Actions to be carried out later. -/
structure Snippet where
  locals : Locals
  actions : List Action

/-- The callbacks of scenarios. -/
abbrev callbacks : Callbacks where
  Body := String
  Effect := Snippet × Option Snippet
  Cleanup := Snippet
  Listener := Snippet
  View := Snippet × List Expr

end PageTree.Scenario
