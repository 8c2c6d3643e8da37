/-
  PageTree/Scenario/Meaning.lean
  ==============================
  **What actions do.**

  An action is a routine: it works on the tables and the log of its scenario and
  sends requests to the client.  Its result is structured data.  A failure ends
  the list of actions it belongs to, unless it is caught.
-/
import PageTree.Json.Printer
import PageTree.Live.Routine
import PageTree.Scenario.Action

namespace PageTree.Scenario

open PageTree.Live

/-- What a scenario keeps between its actions. -/
structure Memory where
  setters : OrderedMap Setter := ∅
  cells : OrderedMap CellRef := ∅
  contexts : OrderedMap ContextHandle := ∅
  mounts : OrderedMap Nat := ∅
  routers : OrderedMap String := ∅
  listeners : OrderedMap Nat := ∅
  /-- The entries of the current step: a tag and a text each. -/
  log : List (String × String) := []
  /-- Whether components were visited in no particular order. -/
  unordered : Bool := false

/-- Routines of scenarios. -/
abbrev Course := Routine callbacks Memory

/-- Routines with local variables that may fail. -/
abbrev Code := ExceptT Fault (StateT Locals Course)

namespace Code

variable {α : Type}

/-- A routine that does not fail. -/
def ofCourse (m : Course α) : Code α := ExceptT.lift (StateT.lift m)

def request (r : Request callbacks α) : Code α := ofCourse (Routine.request r)

/-- Sends a request that may fail. -/
def attempt (r : Request callbacks (Except Fault α)) : Code α := do
  match ← request r with
  | .ok a => return a
  | .error e => throw e

def look (f : Memory → α) : Code α := ofCourse (Routine.look f)

def change (f : Memory → Memory) : Code Unit := ofCourse (Routine.change f)

/-- Keeps something under a name, if one is given. -/
def keep (name : Option String) (a : α) (f : Memory → String → α → Memory) : Code Unit :=
  match name with
  | some n => change fun m => f m n a
  | none => return ()

/-- Sets a local variable, if a name is given. -/
def assign (name : Option String) (v : Value) : Code Unit :=
  match name with
  | some n => modify fun l => { l with vars := l.vars.insert n v }
  | none => return ()

def note (text : String) : Code Unit := do
  let tag := (← get).tag
  change fun m => { m with log := m.log ++ [(tag, text)] }

end Code

/-! ### Expressions -/

mutual

def Expr.value : Expr → Code Value
  | .literal v => return v
  | .var name => return ((← get).vars.get? name).getD (.text "<unset>")
  | .state setter => do
    match ← Code.look (·.setters.get? setter) with
    | none => return .text "<gone>"
    | some s => return (← Code.request (.read s)).getD (.text "<gone>")
  | .cell name => do
    match ← Code.look (·.cells.get? name) with
    | none => return .text "<unset>"
    | some r => Code.request (.readCell r)
  | .sum a b => do
    let x ← a.value
    return x.add (← b.value)
  | .concat parts => return .text (← Expr.texts parts)

/-- The texts of expressions, joined. -/
def Expr.texts : List Expr → Code String
  | [] => return ""
  | e :: es => do
    let v ← e.value
    return v.display ++ (← Expr.texts es)

end

/-! ### Results -/

/-- The result of an action whose name is not in its table. -/
def missing (name : String) : Json := .ofFields [("missing", .string name)]

def failure (e : Fault) : Json :=
  .ofFields [("error", .string e.name), ("message", .string e.message)]

/-- The result of an action whose settings are malformed. -/
def malformed : Json := .ofFields [("error", .string "InvalidOptions")]

def optional (s : Option String) : Json := (s.map Json.string).getD .null

/-- The element of an instance and whether it is mounted. -/
def mountResult (id : String) (mounted : Bool) : Json := .array [.string id, .bool mounted]

/-- What a navigation did. -/
def navigationResult : Navigation → Json
  | .rendered m => .ofFields [("outcome", .string "Rendered"), ("match", m.toJson)]
  | .unchanged m => .ofFields [("outcome", .string "Unchanged"), ("match", m.toJson)]
  | .notFound => .ofFields [("outcome", .string "NotFound")]
  | .missingContainer => .ofFields [("outcome", .string "MissingContainer")]

/-- Goes on with what is kept under a name; else the name is reported missing. -/
def withNamed {α : Type} (table : Memory → OrderedMap α) (name : String) (k : α → Code Json) :
    Code Json := do
  match ← Code.look fun m => (table m).get? name with
  | some a => k a
  | none => return missing name

/-- Notes that components are visited in no particular order. -/
def unordered : Code Unit := Code.change fun m => { m with unordered := true }

def valueOutline : Value → String
  | .int n => toString n.toInt
  | .text s => Outline.quote s
  | .float x => Number.text .outline x

def outlineOf : Subject → Code Json
  | .client => do
    let installed ← Code.request .isInstalled
    let (components, mounted, routers) ← Code.request .counts
    return .string (Outline.record "Runtime"
      [("installed", Outline.bool installed), ("components", toString components),
        ("mounted", toString mounted), ("routers", toString routers)])
  | .mount name => withNamed (·.mounts) name fun n => do
    match ← Code.request (.describe n) with
    | some (id, mounted) =>
      return .string (Outline.record "Unmount"
        [("element_id", Outline.quote id), ("mounted", Outline.bool mounted)])
    | none => return missing name
  | .setter name => withNamed (·.setters) name fun s =>
    return .string (Outline.record "SetState"
      [("component_id", Outline.quote s.component), ("index", toString s.index)])
  | .cell name => withNamed (·.cells) name fun r => do
    return .string (Outline.call "Ref" (valueOutline (← Code.request (.readCell r))))
  | .context name => withNamed (·.contexts) name fun h =>
    return .string (Outline.record "ContextHandle" [("id", Outline.quote h.id)])
  | .router name => withNamed (·.routers) name fun id =>
    return .string (Outline.record "RouterHandle" [("id", Outline.quote id)])

/-- The element of a mount and whether it is mounted. -/
def describeMount (n : Nat) : Code Json := do
  match ← Code.request (.describe n) with
  | some (id, mounted) => return mountResult id mounted
  | none => return .null

/-- Keeps the number of an instance under a name; the handle that it takes the
    place of, or the handle itself if there is no name, is given up. -/
def keepMount (name : Option String) (n : Nat) : Code Unit := do
  match name with
  | none => Code.request (.dropHandle n)
  | some name =>
    let before ← Code.look (·.mounts.get? name)
    Code.change fun m => { m with mounts := m.mounts.insert name n }
    match before with
    | some old => if old ≠ n then Code.request (.dropHandle old)
    | none => return ()

/-- Actions to be carried out later, with the present variables. -/
def snippet (tag : Option String) (actions : List Action) : Code Snippet := do
  let l ← get
  return { locals := { l with tag := tag.getD l.tag }, actions }

def Dependence.value : Dependence → Code (Option Deps)
  | .unknown => return none
  | .nothing => return some .unit
  | .on e => return some (.on (← e.value))

/-! ### Actions -/

mutual

/-- Carries out an action and answers with its result. -/
def Action.perform : Action → Code Json
  | .shown label a => do
    let r ← a.perform
    Code.note (label ++ "=" ++ r.compact)
    return r
  | .caught a => tryCatch a.perform fun e => return failure e
  | .log text => do
    Code.note (← text.value).display
    return .null
  | .assign value name => do
    let v ← value.value
    Code.assign name v
    return v.toJson
  | .branch a b same different => do
    let x ← a.value
    let equal := x.same (← b.value)
    if equal then Action.performAll same else Action.performAll different
    return .bool equal
  | .fail message => do throw (.render (← message.value).display)
  | .install => return .bool (← Code.request .install)
  | .isInstalled => return .bool (← Code.request .isInstalled)
  | .reset => do
    unordered
    Code.request .reset
    return .null
  | .abandon => do
    Code.request .abandon
    return .null
  | .current => return optional (← Code.request .currentComponent)
  | .outline subject => outlineOf subject
  | .mount id component name => do
    let n ← Code.attempt (.mount id component)
    keepMount name n
    describeMount n
  | .unmount held => withNamed (·.mounts) held fun n => do
    Code.request (.unmount n)
    describeMount n
  | .describe held => withNamed (·.mounts) held describeMount
  | .isMounted id => return .bool (← Code.request (.isMounted id))
  | .pass id component => return .string (← Code.attempt (.pass id component))
  | .cleanUp id => do
    Code.request (.cleanUp id)
    return .null
  | .flush id => do
    Code.request (.flush id)
    return .null
  | .stateOf id => return .string (← Code.request (.stateOf id)).toJson.compact
  | .isEmpty id => return .bool (← Code.request (.stateOf id)).isEmpty
  | .subscribe id tag body name => do
    let n ← Code.request (.subscribe id (← snippet (some tag) body))
    Code.keep name n fun m name n => { m with listeners := m.listeners.insert name n }
    return .null
  | .unsubscribe id listener => withNamed (·.listeners) listener fun n => do
    return .bool (← Code.request (.unsubscribe id n))
  | .notify id => do
    Code.request (.notify id)
    return .null
  | .notifyAll => do
    unordered
    Code.request .notifyAll
    return .null
  | .useState ambient initial setter name => do
    let (v, s) ← Code.attempt (.useState ambient (← initial.value))
    Code.keep setter s fun m name s => { m with setters := m.setters.insert name s }
    Code.assign name v
    return v.toJson
  | .useCell ambient initial cell name => do
    let r ← Code.attempt (.useCell ambient (← initial.value))
    Code.keep cell r fun m name r => { m with cells := m.cells.insert name r }
    let v ← Code.request (.readCell r)
    Code.assign name v
    return v.toJson
  | .useContext ambient id kind name => do
    let v ← Code.attempt (.useContext ambient id kind)
    Code.assign name v
    return v.toJson
  | .useEffect ambient deps body cleanup => do
    let d ← deps.value
    let run ← snippet none body
    let cleanup ← cleanup.mapM (snippet none)
    Code.attempt (.useEffect ambient d (run, cleanup))
    return .null
  | .read setter => withNamed (·.setters) setter fun s => do
    return ((← Code.request (.read s)).map Value.toJson).getD .null
  | .write setter value => withNamed (·.setters) setter fun s => do
    return .bool (← Code.request (.write s (← value.value)))
  | .update setter value => withNamed (·.setters) setter fun s => do
    let v ← value.value
    return .bool (← Code.ofCourse (Routine.update s (·.add v)))
  | .listen setter tag body name => withNamed (·.setters) setter fun s => do
    match ← Code.request (.listen s (← snippet (some tag) body)) with
    | some n =>
      Code.keep name n fun m name n => { m with listeners := m.listeners.insert name n }
      return .bool true
    | none => return .bool false
  | .unlisten setter listener =>
    withNamed (·.setters) setter fun s =>
      withNamed (·.listeners) listener fun n => do
        return .bool (← Code.request (.unlisten s n))
  | .readCell cell => withNamed (·.cells) cell fun r => do
    return (← Code.request (.readCell r)).toJson
  | .writeCell cell value => withNamed (·.cells) cell fun r => do
    Code.request (.writeCell r (← value.value))
    return .null
  | .sameCell a b =>
    withNamed (·.cells) a fun x =>
      withNamed (·.cells) b fun y => return .bool (x.cell == y.cell)
  | .createContext id initial name => do
    let h ← Code.attempt (.createContext id (← initial.value))
    Code.keep name h fun m name h => { m with contexts := m.contexts.insert name h }
    return .string h.id
  | .openContext id kind name => do
    let h ← Code.attempt (.openContext id kind)
    Code.keep name h fun m name h => { m with contexts := m.contexts.insert name h }
    return .string h.id
  | .readContext context => withNamed (·.contexts) context fun h => do
    return (← Code.attempt (.readContext h)).toJson
  | .writeContext context value => withNamed (·.contexts) context fun h => do
    unordered
    Code.attempt (.writeContext h (← value.value))
    return .null
  | .updateContext context value => withNamed (·.contexts) context fun h => do
    unordered
    let v ← value.value
    match ← Code.ofCourse (Routine.updateContext h (·.add v)) with
    | .ok () => return .null
    | .error e => throw e
  | .deleteContext id => return .bool (← Code.request (.deleteContext id))
  | .hasContext id => return .bool (← Code.request (.hasContext id))
  | .createRouter settings routes name =>
    match settings with
    | none => return malformed
    | some s => do
      let route (r : String × List Action × List Expr) : Route callbacks.View :=
        { pattern := RoutePattern.parse r.1
          view := ({ locals := { tag := r.1 }, actions := r.2.1 }, r.2.2) }
      Code.request (.createRouter s (routes.map route))
      Code.keep name s.id fun m name id => { m with routers := m.routers.insert name id }
      return .string s.id
  | .removeRouter id => return .bool (← Code.request (.removeRouter id))
  | .navigate id path => return navigationResult (← Code.attempt (.navigate id path))
  | .navigateBy router path => withNamed (·.routers) router fun id => do
    return navigationResult (← Code.attempt (.navigate id path))
  | .routerContext id =>
    return ((← Code.request (.routerContext id)).map RouterContext.toJson).getD .null
  | .contextBy router => withNamed (·.routers) router fun id => do
    return ((← Code.request (.routerContext id)).map RouterContext.toJson).getD .null
  | .reversePath id pattern params =>
    return optional (← Code.request (.reversePath id pattern params))
  | .reverseBy router pattern params => withNamed (·.routers) router fun id => do
    return optional (← Code.request (.reversePath id pattern params))
  | .document step => Code.request (.document step)

/-- Carries out actions one after another, up to the first failure. -/
def Action.performAll : List Action → Code Unit
  | [] => return ()
  | a :: as => do
    let _ ← a.perform
    Action.performAll as

end

end PageTree.Scenario
