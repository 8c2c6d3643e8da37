/-
  PageTree/Proofs/Live/Parallels.lean
  ===================================
  **Two courses of events side by side.**

  To compare what happens in two worlds, run the same requests in both.  A
  relation between the worlds (`S`) is kept if the client is asked only what the
  relation does not tell apart (`Look`), is changed in ways that keep it
  (`Access`), and callbacks keep it.  Then every service keeps it whole: the
  answers agree, the worlds left behind are related again, and one side gives no
  answer only if the other gives none.

  Which component is current, and at which position the hooks of a component are,
  is not asked there, so relations may leave these open.  Requests that do ask,
  and `reset`, are not plain (`Request.IsPlain`).

    * `Parallel.serve`: plain requests are served side by side.
-/
import PageTree.Proofs.Live.Conduct

namespace PageTree.Live

variable {P : Callbacks} {μ ν α β : Type}

/-! ### Courses of events -/

theorem rel_bind {γ δ : Type*} {ε ζ : Type*} {R : γ → δ → Prop} {T : ε → ζ → Prop} {o : Option γ}
    {o' : Option δ} {k : γ → Option ε} {k' : δ → Option ζ} (h : Option.Rel R o o')
    (hk : ∀ a b, R a b → Option.Rel T (k a) (k' b)) : Option.Rel T (o.bind k) (o'.bind k') := by
  cases h with
  | none => exact .none
  | some related => exact hk _ _ related

theorem rel_mono {γ δ : Type*} {R T : γ → δ → Prop} {o : Option γ} {o' : Option δ}
    (h : Option.Rel R o o') (weaken : ∀ a b, R a b → T a b) : Option.Rel T o o' := by
  cases h with
  | none => exact .none
  | some related => exact .some (weaken _ _ related)

/-- Side by side from related worlds: either both give the same answer and leave
    related worlds behind, or neither gives one. -/
def Act.Tracks (S : World P μ → World P ν → Prop) (m : Act P μ α) (m' : Act P ν α) : Prop :=
  ∀ w w', S w w' → Option.Rel (fun r r' => r.1 = r'.1 ∧ S r.2 r'.2) (m w) (m' w')

/-- Related worlds look the same. -/
def Sees (S : World P μ → World P ν → Prop) (f : Client P → α) : Prop :=
  ∀ w w', S w w' → f w.client = f w'.client

/-- In related worlds the client gives the same answer, and the worlds stay
    related. -/
def Respects (S : World P μ → World P ν → Prop) (f : Client P → α × Client P) : Prop :=
  ∀ w w', S w w' → (f w.client).1 = (f w'.client).1 ∧
    S { w with client := (f w.client).2 } { w' with client := (f w'.client).2 }

section

variable {S : World P μ → World P ν → Prop}

namespace Act.Tracks

theorem of_failure : (failure : Act P μ α).Tracks S failure := fun _ _ _ => .none

theorem pure (a : α) : (Pure.pure a : Act P μ α).Tracks S (Pure.pure a) :=
  fun _ _ related => .some ⟨rfl, related⟩

theorem bind {m : Act P μ α} {m' : Act P ν α} {k : α → Act P μ β} {k' : α → Act P ν β}
    (hm : m.Tracks S m') (hk : ∀ a, (k a).Tracks S (k' a)) : (m >>= k).Tracks S (m' >>= k') := by
  intro w w' related
  refine rel_bind (hm w w' related) ?_
  rintro ⟨a, w₁⟩ ⟨_, w₁'⟩ ⟨rfl, related₁⟩
  exact hk a w₁ w₁' related₁

theorem look {f : Client P → α} (sees : Sees S f) :
    (Act.look f : Act P μ α).Tracks S (Act.look f) :=
  fun _ _ related => .some ⟨sees _ _ related, related⟩

theorem through {f : Client P → α × Client P} (respects : Respects S f) :
    (Act.through f : Act P μ α).Tracks S (Act.through f) :=
  fun _ _ related => .some (respects _ _ related)

theorem change {f : Client P → Client P} (respects : Respects S fun c => ((), f c)) :
    (Act.change f : Act P μ Unit).Tracks S (Act.change f) :=
  fun _ _ related => .some (respects _ _ related)

theorem forM {k : α → Act P μ PUnit} {k' : α → Act P ν PUnit} (hk : ∀ a, (k a).Tracks S (k' a))
    (as : List α) : (as.forM k).Tracks S (as.forM k') := by
  induction as with
  | nil => exact pure _
  | cons a as ih => exact bind (hk a) fun _ => ih

/-- If one side gives an answer, so does the other. -/
theorem answer {m : Act P μ α} {m' : Act P ν α} (tracks : m.Tracks S m') {w w₁ : World P μ}
    {w' : World P ν} {a : α} (related : S w w') (h : m w = some (a, w₁)) :
    ∃ w₁', m' w' = some (a, w₁') ∧ S w₁ w₁' := by
  have both := tracks w w' related
  rw [h] at both
  generalize m' w' = o at both
  rcases both with ⟨rfl, related₁⟩ | _
  exact ⟨_, rfl, related₁⟩

end Act.Tracks

end

/-! ### Looks and accesses -/

/-- What services and plain requests ask of the client. -/
inductive Look : {α : Type} → (Client P → α) → Prop
  | installed : Look fun c => c.installed
  | counts : Look fun c => (c.records.size, c.mounted.size, c.routers.size)
  | isMounted (id) : Look fun c => c.isMounted id
  | describe (n) : Look fun c => (c.instance? n).map fun i => (i.element, i.mounted)
  | instance? (n) : Look fun c => c.instance? n
  | unmountable (n) : Look fun c => !c.released && (c.instance? n).any (·.mounted)
  | reactionsOf (id) : Look fun c => c.reactionsOf id
  | allReactions : Look fun c => c.allReactions
  | read (s) : Look fun c => c.read s
  | cellValue (cell) : Look fun c => c.cellValue cell
  | openContext (id kind) : Look fun c => c.openContext id kind
  | contextValue (id kind) : Look fun c => c.contextValue id kind
  | hasContext (id) : Look fun c => c.contexts.contains id
  | routerContext (id) : Look fun c => c.routerContext id
  | reverse? (id pattern params) : Look fun c => c.reverse? id pattern params
  | has (id) : Look fun c => c.document.has id
  | html? (id) : Look fun c => c.document.html? id
  | descendants (id) : Look fun c => c.document.descendants id

/-- How services and plain requests change the client, with the answers they
    get. -/
inductive Access : {α : Type} → (Client P → α × Client P) → Prop
  | install : Access fun c => c.install
  | abandon : Access fun c => ((), c.abandon)
  | dropHandle (n) : Access fun c => ((), c.dropHandle n)
  | subscribe (id r) : Access fun c => c.subscribe id r
  | unsubscribe (id n) : Access fun c => c.unsubscribe id n
  | takePending (id) : Access fun c => c.takePending id
  | discardPending (id) : Access fun c => ((), c.discardPending id)
  | note (e) : Access fun c => ((), c.note e)
  | takeCleanup (e) : Access fun c => c.takeCleanup e
  | settleEffect (e cleanup) : Access fun c => c.settleEffect e cleanup
  | forget (id) : Access fun c => c.forget id
  | store (s v) : Access fun c => c.store s v
  | listen (s l) : Access fun c => c.listen s l
  | unlisten (s n) : Access fun c => c.unlisten s n
  | writeCell (r v) : Access fun c => ((), c.writeCell r v)
  | createContext (id v) : Access fun c => c.createContext id v
  | writeContext (h v) : Access fun c => c.writeContext h v
  | deleteContext (id) : Access fun c => c.deleteContext id
  | createRouter (settings routes) : Access fun c => ((), c.createRouter settings routes)
  | removeRouter (id) : Access fun c => c.removeRouter id
  | findRoute (id path) : Access fun c => c.findRoute id path
  | moveRouter (id path params) : Access fun c => ((), c.moveRouter id path params)
  | setHtml (id html) : Access fun c => c.setHtml id html
  | modifyDocument (f) : Access fun c => ((), c.modifyDocument f)
  | document (step) : Access fun c =>
      ((DocumentStep.run c.document step).1,
        { c with document := (DocumentStep.run c.document step).2 })
  | takeMounted (id) : Access fun c => c.takeMounted id
  | addInstance (id body) : Access fun c => c.addInstance id body
  | beginRender (n) : Access fun c => c.beginRender n
  | endRender (n) : Access fun c => ((), c.endRender n)
  | detach (n i) : Access fun c => c.detach n i
  | endSubscription (n) : Access fun c => c.endSubscription n

/-- No service outside of passes changes which component is current. -/
theorem Access.current {f : Client P → α × Client P} (access : Access f) (c : Client P) :
    (f c).2.current = c.current := by
  cases access with
  | settleEffect e cleanup =>
    dsimp only [Client.settleEffect]
    split <;> rfl
  | store s v =>
    dsimp only [Client.store]
    split
    · rfl
    · split <;> rfl
  | writeCell r v =>
    dsimp only [Client.writeCell]
    split <;> rfl
  | writeContext h v =>
    dsimp only [Client.writeContext]
    split
    · rfl
    · split <;> rfl
  | findRoute id path =>
    dsimp only [Client.findRoute]
    split <;> rfl
  | beginRender n =>
    dsimp only [Client.beginRender]
    split
    · rfl
    · split <;> rfl
  | detach n i =>
    dsimp only [Client.detach]
    split <;> rfl
  | endSubscription n =>
    dsimp only [Client.endSubscription]
    split
    · rfl
    · dsimp only
      split <;> rfl
  | _ => rfl

theorem current_useState (c : Client P) (id : String) (v : Value) :
    (c.useState id v).2.current = c.current := by
  dsimp only [Client.useState]
  split <;> rfl

theorem current_useCell (c : Client P) (id : String) (v : Value) :
    (c.useCell id v).2.current = c.current := by
  dsimp only [Client.useCell]
  split
  · split <;> rfl
  · rfl

theorem current_useEffect (c : Client P) (id : String) (deps : Option Deps) (e : P.Effect) :
    (c.useEffect id deps e).current = c.current := by
  dsimp only [Client.useEffect]
  split <;> rfl

/-! ### Services side by side -/

/-- The relation is kept by looks, accesses, passes and the other callbacks. -/
structure Parallel (S : World P μ → World P ν → Prop) (calls : Calls P μ) (calls' : Calls P ν) :
    Prop where
  look : ∀ {α : Type} {f : Client P → α}, Look f → Sees S f
  access : ∀ {α : Type} {f : Client P → α × Client P}, Access f → Respects S f
  runPass : ∀ id body, (calls.runPass id body).Tracks S (calls'.runPass id body)
  effect : ∀ e, (calls.effect e).Tracks S (calls'.effect e)
  cleanup : ∀ k, (calls.cleanup k).Tracks S (calls'.cleanup k)
  listener : ∀ l, (calls.listener l).Tracks S (calls'.listener l)
  view : ∀ v params, (calls.view v params).Tracks S (calls'.view v params)

/-- The requests whose answers do not depend on which component is current or on
    positions of hooks, other than `reset`. -/
def Request.IsPlain : Request P β → Prop
  | .reset | .currentComponent | .stateOf _ | .useState .. | .useCell .. | .useEffect ..
  | .useContext .. => False
  | _ => True

namespace Parallel

open Act (Tracks)

variable {S : World P μ → World P ν → Prop} {calls : Calls P μ} {calls' : Calls P ν}
  (parallel : Parallel S calls calls')

include parallel

theorem looks {f : Client P → α} (seen : Look f) :
    (Act.look f : Act P μ α).Tracks S (Act.look f) :=
  .look (parallel.look seen)

theorem through {f : Client P → α × Client P} (access : Access f) :
    (Act.through f : Act P μ α).Tracks S (Act.through f) :=
  .through (parallel.access access)

theorem change {f : Client P → Client P} (access : Access fun c => ((), f c)) :
    (Act.change f : Act P μ Unit).Tracks S (Act.change f) :=
  .change (parallel.access access)

theorem forM_undo (ds : List (Due P)) : (ds.forM calls.undo).Tracks S (ds.forM calls'.undo) := by
  refine .forM (fun d => ?_) ds
  exact .bind (parallel.change (.note _)) fun _ => parallel.cleanup d.cleanup

theorem undoAll {take : Client P → List (Due P) × Client P} (taken : Access take) :
    (calls.undoAll take).Tracks S (calls'.undoAll take) :=
  .bind (parallel.through taken) fun ds => parallel.forM_undo ds

theorem runEffect (e : PendingEffect P) : (calls.runEffect e).Tracks S (calls'.runEffect e) := by
  refine .bind (parallel.undoAll (.takeCleanup e)) fun _ => ?_
  refine .bind (parallel.effect e.effect) fun cleanup => ?_
  exact parallel.undoAll (.settleEffect e cleanup)

theorem flush (id : String) : (calls.flush id).Tracks S (calls'.flush id) :=
  .bind (parallel.through (.takePending id)) fun queued => .forM parallel.runEffect queued

theorem pass (id : String) (body : P.Body) :
    (calls.pass id body).Tracks S (calls'.pass id body) := by
  refine .bind (parallel.runPass id body) fun result => ?_
  exact .bind (parallel.flush id) fun _ => .pure result

theorem cleanUp (id : String) : (calls.cleanUp id).Tracks S (calls'.cleanUp id) :=
  parallel.undoAll (.forget id)

theorem renderInstance (n : Nat) :
    (calls.renderInstance n).Tracks S (calls'.renderInstance n) := by
  refine .bind (parallel.through (.beginRender n)) fun begun => ?_
  cases begun with
  | none => exact .pure _
  | some i =>
    refine .bind (parallel.runPass i.element i.body) fun result => ?_
    refine .bind (parallel.change (.endRender n)) fun _ => ?_
    have discard := parallel.change (.discardPending i.element)
    cases result with
    | error e => exact .bind discard fun _ => .pure _
    | ok html =>
      refine .bind (parallel.through (.setHtml i.element html)) fun shown => ?_
      cases shown with
      | true => exact .bind (parallel.flush i.element) fun _ => .pure _
      | false => exact .bind discard fun _ => .pure _

theorem react (r : Reaction P) : (calls.react r).Tracks S (calls'.react r) := by
  cases r with
  | call l => exact parallel.listener l
  | rerender n => exact .bind (parallel.renderInstance n) fun _ => .pure _

theorem notify (id : String) : (calls.notify id).Tracks S (calls'.notify id) :=
  .bind (parallel.looks (.reactionsOf id)) fun reactions => .forM parallel.react reactions

theorem notifyAll : calls.notifyAll.Tracks S calls'.notifyAll :=
  .bind (parallel.looks .allReactions) fun reactions => .forM parallel.react reactions

theorem write (s : Setter) (v : Value) : (calls.write s v).Tracks S (calls'.write s v) := by
  refine .bind (parallel.through (.store s v)) fun stored => ?_
  cases stored with
  | none => exact .pure _
  | some listeners =>
    refine .bind (.forM parallel.listener listeners) fun _ => ?_
    exact .bind (parallel.notify s.component) fun _ => .pure _

theorem writeContext (h : ContextHandle) (v : Value) :
    (calls.writeContext h v).Tracks S (calls'.writeContext h v) := by
  refine .bind (parallel.through (.writeContext h v)) fun written => ?_
  cases written with
  | error e => exact .pure _
  | ok _ => exact .bind parallel.notifyAll fun _ => .pure _

theorem tearDown (n : Nat) : (calls.tearDown n).Tracks S (calls'.tearDown n) := by
  refine .bind (parallel.looks (.instance? n)) fun found => ?_
  cases found with
  | none => exact .pure _
  | some i =>
    refine .bind (parallel.undoAll (.detach n i)) fun _ => ?_
    refine .bind (parallel.through (.endSubscription n)) fun last => ?_
    cases last with
    | true => exact parallel.cleanUp i.element
    | false => exact .pure _

theorem unmountElement (id : String) :
    (calls.unmountElement id).Tracks S (calls'.unmountElement id) := by
  refine .bind (parallel.through (.takeMounted id)) fun found => ?_
  cases found with
  | none => exact .pure _
  | some n => exact parallel.tearDown n

theorem unmount (n : Nat) : (calls.unmount n).Tracks S (calls'.unmount n) := by
  refine .bind (parallel.looks (.unmountable n)) fun mounted => ?_
  cases mounted with
  | true => exact parallel.tearDown n
  | false => exact .pure _

theorem mount (id : String) (body : P.Body) :
    (calls.mount id body).Tracks S (calls'.mount id body) := by
  refine .bind (parallel.looks (.has id)) fun present => ?_
  cases present with
  | false => exact .pure _
  | true =>
    refine .bind (parallel.unmountElement id) fun _ => ?_
    refine .bind (parallel.through (.addInstance id body)) fun n => ?_
    refine .bind (parallel.renderInstance n) fun result => ?_
    cases result with
    | error e => exact .bind (parallel.tearDown n) fun _ => .pure _
    | ok _ => exact .pure _

theorem purge (id : String) : (calls.purge id).Tracks S (calls'.purge id) := by
  refine .bind (parallel.looks (.descendants id)) fun nested => .forM (fun e => ?_) nested
  exact .bind (parallel.unmountElement e) fun _ => parallel.cleanUp e

theorem fillContainer (settings : RouterSettings) (m : RouteMatch) (html : String) :
    (calls.fillContainer settings m html).Tracks S (calls'.fillContainer settings m html) := by
  have fill : (do
      Act.change (·.modifyDocument (·.setHtml settings.container html))
      Act.change (·.modifyDocument (·.execute settings.container))
      return .rendered m : Act P μ Navigation).Tracks S (do
        Act.change (·.modifyDocument (·.setHtml settings.container html))
        Act.change (·.modifyDocument (·.execute settings.container))
        return .rendered m) := by
    refine .bind (parallel.change (.modifyDocument _)) fun _ => ?_
    exact .bind (parallel.change (.modifyDocument _)) fun _ => .pure _
  refine .bind (parallel.looks (.html? settings.container)) fun shown => ?_
  split
  · exact .pure _
  · split
    · exact .bind (parallel.purge settings.container) fun _ => fill
    · exact fill

theorem navigate (id path : String) :
    (calls.navigate id path).Tracks S (calls'.navigate id path) := by
  refine .bind (parallel.through (.findRoute id path)) fun found => ?_
  cases found with
  | none => exact .pure _
  | some destination =>
    refine .bind (parallel.looks (.has destination.settings.container)) fun present => ?_
    split
    · exact .pure _
    · split
      · refine .bind (parallel.change (.modifyDocument _)) fun _ => ?_
        refine .bind (parallel.view _ _) fun html => ?_
        refine .bind (parallel.change (.moveRouter id path _)) fun _ => ?_
        exact .bind (parallel.fillContainer _ _ html) fun _ => .pure _
      · exact .pure _

/-- Plain requests are served side by side, whichever component sends them. -/
theorem serve (scope scope' : Option String) {r : Request P β} (plain : r.IsPlain) :
    (calls.serve scope r).Tracks S (calls'.serve scope' r) := by
  cases r with
  | reset | currentComponent | stateOf | useState | useCell | useEffect | useContext =>
    exact plain.elim
  | install => exact parallel.through .install
  | isInstalled => exact parallel.looks .installed
  | abandon => exact parallel.change .abandon
  | counts => exact parallel.looks .counts
  | mount id body => exact parallel.mount id body
  | unmount n => exact parallel.unmount n
  | dropHandle n => exact parallel.change (.dropHandle n)
  | isMounted id => exact parallel.looks (.isMounted id)
  | describe n => exact parallel.looks (.describe n)
  | pass id body => exact parallel.pass id body
  | cleanUp id => exact parallel.cleanUp id
  | flush id => exact parallel.flush id
  | subscribe id l => exact parallel.through (.subscribe id (.call l))
  | unsubscribe id n => exact parallel.through (.unsubscribe id n)
  | notify id => exact parallel.notify id
  | notifyAll => exact parallel.notifyAll
  | read s => exact parallel.looks (.read s)
  | write s v => exact parallel.write s v
  | listen s l => exact parallel.through (.listen s l)
  | unlisten s n => exact parallel.through (.unlisten s n)
  | readCell r => exact parallel.looks (.cellValue r.cell)
  | writeCell r v => exact parallel.change (.writeCell r v)
  | createContext id v => exact parallel.through (.createContext id v)
  | openContext id kind => exact parallel.looks (.openContext id kind)
  | readContext h => exact parallel.looks (.contextValue h.id h.kind)
  | writeContext h v => exact parallel.writeContext h v
  | deleteContext id => exact parallel.through (.deleteContext id)
  | hasContext id => exact parallel.looks (.hasContext id)
  | createRouter settings routes => exact parallel.change (.createRouter settings routes)
  | removeRouter id => exact parallel.through (.removeRouter id)
  | navigate id path => exact parallel.navigate id path
  | routerContext id => exact parallel.looks (.routerContext id)
  | reversePath id pattern params => exact parallel.looks (.reverse? id pattern params)
  | document step => exact parallel.through (.document step)

end Parallel

end PageTree.Live
