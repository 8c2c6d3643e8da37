/-
  PageTree/Scenario/Report.lean
  =============================
  **Carrying out a scenario.**

  A scenario names the elements of the document, the components and the actions
  at the top level.  Carrying it out reports for every action its result, what
  was logged meanwhile and what then is to be seen at the watched elements.
-/
import PageTree.Live.Service
import PageTree.Scenario.Meaning

namespace PageTree.Scenario

open PageTree.Live

/-! ### Callbacks -/

/-- The text of a failure in a callback that cannot report it. -/
def failureNote (e : Fault) : String := "error: " ++ e.message

def Code.start {α : Type} (m : Code α) (l : Locals) : Course (Except Fault α × Locals) := m.run l

/-- Carries out actions; a failure is logged. -/
def Code.orNote (m : Code Unit) : Code Unit := tryCatch m fun e => Code.note (failureNote e)

def Snippet.run (s : Snippet) : Course Unit := do
  let _ ← Code.start (Code.orNote (Action.performAll s.actions)) s.locals

def Component.render (c : Component) (id : String) : Course (Except Fault String) := do
  let body : Code String := do
    Action.performAll c.actions
    Expr.texts c.html
  return (← Code.start body { tag := id }).1

def renderRoute (s : Snippet) (html : List Expr) (params : RouteParams) : Course String := do
  let locals : Locals := { s.locals with vars := ⟨params.entries.map fun (k, v) => (k, .text v)⟩ }
  { s with locals }.run
  match (← Code.start (Expr.texts html) locals).1 with
  | .ok text => return text
  | .error e => return e.message

def program (components : List (String × Component)) : Program callbacks Memory where
  render id name := ((components.lookup name).getD {}).render id
  effect e := do
    e.1.run
    return e.2
  cleanup := Snippet.run
  listener := Snippet.run
  view v := renderRoute v.1 v.2

end PageTree.Scenario

namespace PageTree

/-! ### Scenarios and reports -/

structure Scenario where
  /-- The elements of the document and their markup. -/
  elements : List (String × String) := []
  components : List (String × Scenario.Component) := []
  steps : List Scenario.Action := []
  watch : List String := []

namespace Scenario

open PageTree.Live

/-- What is to be seen at an element. -/
structure Sight where
  html : Option String
  mounted : Bool
  state : ComponentState

/-- What is reported of a step. -/
structure Report where
  result : Json
  log : List (String × String)
  /-- What is to be seen at the watched elements, unless the client is gone. -/
  sights : Option (List Sight)

/-- How deep callbacks may be nested. -/
def depth : Nat := 10000

def sight (c : Client callbacks) (id : String) : Sight :=
  { html := c.document.html? id, mounted := c.isMounted id, state := c.stateOf id }

/-- The entries of a step.  If components were visited in no particular order,
    the entries are sorted by their tags. -/
def entries (m : Memory) : List (String × String) :=
  if m.unordered then m.log.mergeSort fun a b => !decide (b.1 < a.1) else m.log

/-- Carries out the steps of a scenario. -/
def runSteps (s : Scenario) :
    Locals → World callbacks Memory → List Action → Option (List Report)
  | _, _, [] => some []
  | l, w, a :: as => do
    let w := { w with memory := { w.memory with log := [], unordered := false } }
    let ((r, l), w) ← (program s.components).run depth (Code.start a.perform l) w
    let report : Report :=
      { result := match r with
          | .ok v => v
          | .error e => failure e
        log := entries w.memory
        sights := if w.client.released then none else some (s.watch.map (sight w.client)) }
    return report :: (← runSteps s l w as)

/-- Carries out a scenario; nothing is reported if callbacks are nested too
    deep. -/
def run (s : Scenario) : Option (List Report) :=
  runSteps s {} { client := Client.new (Document.ofElements s.elements), memory := {} } s.steps

end Scenario

end PageTree
