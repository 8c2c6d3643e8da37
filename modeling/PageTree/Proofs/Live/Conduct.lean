/-
  PageTree/Proofs/Live/Conduct.lean
  =================================
  **What every run does to the client.**

  Callbacks may send any request at any time, so a law of runs has to hold of
  every service with every other service running inside it.  A law is a relation
  between the client before and after.  If it holds of each small change
  (`Change`), of a pass and of running the cleanups that were taken out, and
  can be put together (`Law`), then it holds of every service and so of every
  run: `moves_serve` by cases on the request, `moves_invoke` by induction on how
  deep callbacks are nested.

  Some relations hold of a service as a whole but not of its parts: a mount takes
  an instance out of the table before it clears the flag, a render ends only
  after its callback.  `Regime` asks for such services as wholes; every law gives
  a regime (`Law.regime`).
-/
import Mathlib
import PageTree.Live.Service

namespace PageTree.Live

variable {P : Callbacks} {μ α β : Type}

/-! ### Courses of events -/

theorem Act.bind_eq_some {m : Act P μ α} {k : α → Act P μ β} {w : World P μ}
    {r : β × World P μ} :
    (m >>= k) w = some r ↔ ∃ a w₁, m w = some (a, w₁) ∧ k a w₁ = some r := by
  constructor
  · intro h
    obtain ⟨⟨a, w₁⟩, hm, hk⟩ := Option.bind_eq_some_iff.1 h
    exact ⟨a, w₁, hm, hk⟩
  · rintro ⟨a, w₁, hm, hk⟩
    exact Option.bind_eq_some_iff.2 ⟨(a, w₁), hm, hk⟩

theorem eq_ok_of_toOption {ε : Type} {result : Except ε α} {a : α}
    (h : result.toOption = some a) : result = .ok a := by
  cases result with
  | error e => cases h
  | ok b => rw [Option.some.inj h]

theorem Act.look_bind (f : Client P → α) (k : α → Act P μ β) (w : World P μ) :
    (Act.look f >>= k) w = k (f w.client) w :=
  rfl

theorem Act.change_bind (f : Client P → Client P) (k : Unit → Act P μ β) (w : World P μ) :
    (Act.change f >>= k) w = k () { w with client := f w.client } :=
  rfl

theorem Act.through_bind (f : Client P → α × Client P) (k : α → Act P μ β) (w : World P μ) :
    (Act.through f >>= k) w = k (f w.client).1 { w with client := (f w.client).2 } :=
  rfl

theorem Calls.runPass_eq_some {calls : Calls P μ} {id : String} {body : P.Body}
    {w w' : World P μ} {a : Except Fault String} (h : calls.runPass id body w = some (a, w')) :
    ∃ w₁, calls.render id body { w with client := (w.client.beginPass id).2 } = some (a, w₁) ∧
      w' = { w₁ with client := w₁.client.endPass w.client.current } := by
  obtain ⟨previous, w₁, h₁, h⟩ := Act.bind_eq_some.1 h
  obtain ⟨result, w₂, h₂, h⟩ := Act.bind_eq_some.1 h
  obtain ⟨_, w₃, h₃, h⟩ := Act.bind_eq_some.1 h
  obtain ⟨rfl, rfl⟩ : (w.client.beginPass id).1 = previous ∧ _ = w₁ := by
    simpa using Option.some.inj h₁
  obtain rfl : _ = w₃ := congrArg Prod.snd (Option.some.inj h₃)
  obtain ⟨rfl, rfl⟩ : result = a ∧ _ = w' := by simpa using Option.some.inj h
  exact ⟨w₂, h₂, rfl⟩

theorem Calls.undoAll_eq (calls : Calls P μ) (take : Client P → List (Due P) × Client P)
    (w : World P μ) :
    calls.undoAll take w
      = (take w.client).1.forM calls.undo { w with client := (take w.client).2 } :=
  rfl

section

variable {scope : Option String} {ambient : Bool} {w : World P μ}

theorem hook_of_no_target (target : Calls.hookTarget scope ambient w.client = none)
    (name : String) (f : String → Client P → Except Fault α × Client P) :
    Calls.hook scope ambient name f w = some (.error (.hookOutsidePass name), w) := by
  unfold Calls.hook
  rw [Act.look_bind, target]
  rfl

theorem hook_of_target {id : String} (target : Calls.hookTarget scope ambient w.client = some id)
    (name : String) (f : String → Client P → Except Fault α × Client P) :
    Calls.hook scope ambient name f w
      = some ((f id w.client).1, { w with client := (f id w.client).2 }) := by
  unfold Calls.hook
  rw [Act.look_bind, target]
  rfl

end

/-- Whenever a course of events gives an answer, the client before and after is
    related by `R`. -/
def Act.Moves (R : Client P → Client P → Prop) (m : Act P μ α) : Prop :=
  ∀ w a w', m w = some (a, w') → R w.client w'.client

/-- Relations that can be put together. -/
structure Composes (R : Client P → Client P → Prop) : Prop where
  refl : ∀ c, R c c
  trans : ∀ {c c' c''}, R c c' → R c' c'' → R c c''

/-- What holds of running some cleanups one after another: it holds of none, and
    it holds of one more, which is noted and run first. -/
theorem Calls.undo_induction {R : Client P → Client P → Prop}
    {S : List (Due P) → Client P → Client P → Prop} {calls : Calls P μ}
    (hk : ∀ k, (calls.cleanup k).Moves R) (nil : ∀ c, S [] c c)
    (cons : ∀ {d ds c c' c''}, R (c.note (.undone d)) c' → S ds c' c'' → S (d :: ds) c c'')
    (ds : List (Due P)) {w w' : World P μ} {u : PUnit}
    (h : ds.forM calls.undo w = some (u, w')) : S ds w.client w'.client := by
  induction ds generalizing w with
  | nil =>
    obtain rfl : w = w' := congrArg Prod.snd (Option.some.inj h)
    exact nil _
  | cons d ds ih =>
    obtain ⟨_, w₁, h₁, h₂⟩ := Act.bind_eq_some.1 h
    exact cons (hk d.cleanup _ _ _ h₁) (ih h₂)

/-- The means to run callbacks all move the client along `R`. -/
structure Calls.Move (R : Client P → Client P → Prop) (calls : Calls P μ) : Prop where
  render : ∀ id body, (calls.render id body).Moves R
  effect : ∀ e, (calls.effect e).Moves R
  cleanup : ∀ k, (calls.cleanup k).Moves R
  listener : ∀ l, (calls.listener l).Moves R
  view : ∀ v params, (calls.view v params).Moves R

/-! ### Small changes -/

/-- The small changes of the client: those that services make one at a time and
    that neither begin or end a pass nor have to do with cleanups. -/
inductive Change : Client P → Client P → Prop
  | install (c) : Change c c.install.2
  | abandon (c) : Change c c.abandon
  | dropHandle (c n) : Change c (c.dropHandle n)
  | subscribe (c id r) : Change c (c.subscribe id r).2
  | unsubscribe (c id n) : Change c (c.unsubscribe id n).2
  | takePending (c id) : Change c (c.takePending id).2
  | useState (c id v) : Change c (c.useState id v).2
  | useCell (c id v) : Change c (c.useCell id v).2
  | useEffect (c id deps e) : Change c (c.useEffect id deps e)
  | store (c s v) : Change c (c.store s v).2
  | listen (c s l) : Change c (c.listen s l).2
  | unlisten (c s n) : Change c (c.unlisten s n).2
  | writeCell (c r v) : Change c (c.writeCell r v)
  | createContext (c id v) : Change c (c.createContext id v).2
  | writeContext (c h v) : Change c (c.writeContext h v).2
  | deleteContext (c id) : Change c (c.deleteContext id).2
  | createRouter (c settings routes) : Change c (c.createRouter settings routes)
  | removeRouter (c id) : Change c (c.removeRouter id).2
  | findRoute (c id path) : Change c (c.findRoute id path).2
  | moveRouter (c id path params) : Change c (c.moveRouter id path params)
  | modifyDocument (c f) : Change c (c.modifyDocument f)
  | beginRender (c n) : Change c (c.beginRender n).2
  | endRender (c n) : Change c (c.endRender n)
  | takeMounted (c id) : Change c (c.takeMounted id).2
  | addInstance (c id body) : Change c (c.addInstance id body).2
  | endSubscription (c n) : Change c (c.endSubscription n).2

/-- The small changes that do not concern mounted components. -/
inductive Turn : Client P → Client P → Prop
  | install (c) : Turn c c.install.2
  | dropHandle (c n) : Turn c (c.dropHandle n)
  | subscribe (c id l) : Turn c (c.subscribe id (.call l)).2
  | takePending (c id) : Turn c (c.takePending id).2
  | useState (c id v) : Turn c (c.useState id v).2
  | useCell (c id v) : Turn c (c.useCell id v).2
  | useEffect (c id deps e) : Turn c (c.useEffect id deps e)
  | store (c s v) : Turn c (c.store s v).2
  | listen (c s l) : Turn c (c.listen s l).2
  | unlisten (c s n) : Turn c (c.unlisten s n).2
  | writeCell (c r v) : Turn c (c.writeCell r v)
  | createContext (c id v) : Turn c (c.createContext id v).2
  | writeContext (c h v) : Turn c (c.writeContext h v).2
  | deleteContext (c id) : Turn c (c.deleteContext id).2
  | createRouter (c settings routes) : Turn c (c.createRouter settings routes)
  | removeRouter (c id) : Turn c (c.removeRouter id).2
  | findRoute (c id path) : Turn c (c.findRoute id path).2
  | moveRouter (c id path params) : Turn c (c.moveRouter id path params)
  | document (c step) : Turn c (c.modifyDocument fun d => (DocumentStep.run d step).2)

theorem Turn.change {c c' : Client P} (h : Turn c c') : Change c c' := by
  cases h <;> constructor

/-- The small changes just as services make them: the others concern mounted
    components. -/
inductive Step : Client P → Client P → Prop
  | turn {c c'} (h : Turn c c') : Step c c'
  | abandon (c) : Step c c.abandon
  | unsubscribe (c id n) : Step c (c.unsubscribe id n).2
  | beginRender (c n) : Step c (c.beginRender n).2
  | endRender (c n) : Step c (c.endRender n)
  | takeMounted (c id) : Step c (c.takeMounted id).2
  | addInstance (c id body) : Step c (c.addInstance id body).2
  | endSubscription (c n) : Step c (c.endSubscription n).2

theorem Step.change {c c' : Client P} (h : Step c c') : Change c c' := by
  cases h with
  | turn h => exact h.change
  | _ => constructor

/-- The ways in which cleanups are taken out. -/
inductive Take : (Client P → List (Due P) × Client P) → Prop
  | takeCleanup (e) : Take (·.takeCleanup e)
  | settleEffect (e cleanup) : Take (·.settleEffect e cleanup)
  | forget (id) : Take (·.forget id)
  | detach (n i) : Take (·.detach n i)
  | clear : Take (·.clear)

/-- A relation that holds of every service as long as callbacks keep to it. -/
structure Law (R : Client P → Client P → Prop) : Prop extends Composes R where
  change : ∀ {c c'}, Change c c' → R c c'
  pass : ∀ {μ : Type} (calls : Calls P μ) id body,
    (calls.render id body).Moves R → (calls.runPass id body).Moves R
  take : ∀ {μ : Type} (calls : Calls P μ) {take}, Take take →
    (∀ k, (calls.cleanup k).Moves R) → (calls.undoAll take).Moves R

/-! ### Putting courses of events together -/

section

variable {R : Client P → Client P → Prop}

namespace Act.Moves

theorem of_failure : (failure : Act P μ α).Moves R := by
  intro w a w' h
  cases h

theorem pure (composes : Composes R) (a : α) : (Pure.pure a : Act P μ α).Moves R := by
  intro w b w' h
  obtain ⟨rfl, rfl⟩ : a = b ∧ w = w' := by simpa using Option.some.inj h
  exact composes.refl _

theorem bind (composes : Composes R) {m : Act P μ α} {k : α → Act P μ β} (hm : m.Moves R)
    (hk : ∀ a, (k a).Moves R) : (m >>= k).Moves R := by
  intro w b w' h
  obtain ⟨a, w₁, h₁, h₂⟩ := Act.bind_eq_some.1 h
  exact composes.trans (hm w a w₁ h₁) (hk a w₁ b w' h₂)

theorem look (composes : Composes R) (f : Client P → α) : (Act.look f : Act P μ α).Moves R := by
  intro w a w' h
  have hw : w = w' := congrArg Prod.snd (Option.some.inj h)
  subst hw
  exact composes.refl _

theorem own (composes : Composes R) (f : μ → α × μ) : (Act.own f : Act P μ α).Moves R := by
  intro w a w' h
  have hw : ({ w with memory := (f w.memory).2 } : World P μ) = w' :=
    congrArg Prod.snd (Option.some.inj h)
  subst hw
  exact composes.refl _

theorem change {f : Client P → Client P} (h : ∀ c, R c (f c)) :
    (Act.change f : Act P μ Unit).Moves R := by
  intro w a w' hw
  have hw : ({ w with client := f w.client } : World P μ) = w' :=
    congrArg Prod.snd (Option.some.inj hw)
  subst hw
  exact h _

theorem through {f : Client P → α × Client P} (h : ∀ c, R c (f c).2) :
    (Act.through f : Act P μ α).Moves R := by
  intro w a w' hw
  have hw : ({ w with client := (f w.client).2 } : World P μ) = w' :=
    congrArg Prod.snd (Option.some.inj hw)
  subst hw
  exact h _

theorem forM (composes : Composes R) {k : α → Act P μ PUnit} (hk : ∀ a, (k a).Moves R)
    (as : List α) : (as.forM k).Moves R := by
  induction as with
  | nil => exact pure composes _
  | cons a as ih => exact bind composes (hk a) fun _ => ih

end Act.Moves

/-! ### Services and their parts -/

open Act (Moves)

namespace Composes

variable (composes : Composes R) {calls : Calls P μ}

include composes

theorem moves_forM_undo (noted : ∀ c d, R c (c.note (.undone d)))
    (cleanups : ∀ k, (calls.cleanup k).Moves R) (ds : List (Due P)) :
    (ds.forM calls.undo).Moves R :=
  .forM composes (fun d => .bind composes (.change fun c => noted c d) fun _ => cleanups _) ds

theorem moves_undoAll {take : Client P → List (Due P) × Client P} (taken : ∀ c, R c (take c).2)
    (noted : ∀ c d, R c (c.note (.undone d))) (cleanups : ∀ k, (calls.cleanup k).Moves R) :
    (calls.undoAll take).Moves R :=
  .bind composes (.through taken) fun ds => composes.moves_forM_undo noted cleanups ds

theorem moves_runPass (begun : ∀ c id, R c (c.beginPass id).2)
    (ended : ∀ c previous, R c (c.endPass previous))
    (renders : ∀ id body, (calls.render id body).Moves R) (id : String) (body : P.Body) :
    (calls.runPass id body).Moves R := by
  refine .bind composes (.through fun c => begun c id) fun previous => ?_
  refine .bind composes (renders id body) fun result => ?_
  exact .bind composes (.change fun c => ended c previous) fun _ => .pure composes result

theorem moves_runEffect (found : ∀ e, (calls.undoAll (·.takeCleanup e)).Moves R)
    (effect : ∀ e, (calls.effect e).Moves R)
    (settled : ∀ e k, (calls.undoAll (·.settleEffect e k)).Moves R) (e : PendingEffect P) :
    (calls.runEffect e).Moves R := by
  refine .bind composes (found e) fun _ => ?_
  refine .bind composes (effect e.effect) fun cleanup => ?_
  exact settled e cleanup

theorem moves_flush (turn : ∀ {c c'}, Turn c c' → R c c')
    (effects : ∀ e, (calls.runEffect e).Moves R) (id : String) : (calls.flush id).Moves R := by
  refine .bind composes (.through fun c => turn (.takePending c id)) fun queued => ?_
  exact .forM composes effects queued

theorem moves_renderInstance (turn : ∀ {c c'}, Turn c c' → R c c')
    (began : ∀ c n, R c (c.beginRender n).2) (ended : ∀ c n, R c (c.endRender n))
    (passes : ∀ id body, (calls.runPass id body).Moves R)
    (effects : ∀ e, (calls.runEffect e).Moves R) (n : Nat) :
    (calls.renderInstance n).Moves R := by
  refine .bind composes (.through fun c => began c n) fun begun => ?_
  cases begun with
  | none => exact .pure composes _
  | some i =>
    have discard : (Act.change (·.discardPending i.element) : Act P μ Unit).Moves R :=
      .change fun c => turn (.takePending c i.element)
    have flush := composes.moves_flush turn effects i.element
    refine .bind composes (passes i.element i.body) fun result => ?_
    refine .bind composes (.change fun c => ended c n) fun _ => ?_
    cases result with
    | error e => exact .bind composes discard fun _ => .pure composes _
    | ok html =>
      have shown : (Act.through (·.setHtml i.element html) : Act P μ Bool).Moves R :=
        .through fun c => turn (.document c (.setHtml i.element html))
      refine .bind composes shown fun shown => ?_
      cases shown with
      | true => exact .bind composes flush fun _ => .pure composes _
      | false => exact .bind composes discard fun _ => .pure composes _

theorem moves_tearDown (detached : ∀ n i, (calls.undoAll (·.detach n i)).Moves R)
    (left : ∀ c n, R c (c.endSubscription n).2) (forgets : ∀ id, (calls.cleanUp id).Moves R)
    (n : Nat) : (calls.tearDown n).Moves R := by
  refine .bind composes (.look composes _) fun found => ?_
  cases found with
  | none => exact .pure composes _
  | some i =>
    refine .bind composes (detached n i) fun _ => ?_
    refine .bind composes (.through fun c => left c n) fun last => ?_
    cases last with
    | true => exact forgets i.element
    | false => exact .pure composes _

theorem moves_unmountElement (taken : ∀ c id, R c (c.takeMounted id).2)
    (stops : ∀ n, (calls.tearDown n).Moves R) (id : String) :
    (calls.unmountElement id).Moves R := by
  refine .bind composes (.through fun c => taken c id) fun found => ?_
  cases found with
  | none => exact .pure composes _
  | some n => exact stops n

theorem moves_mount (vacates : ∀ id, (calls.unmountElement id).Moves R)
    (added : ∀ c id body, R c (c.addInstance id body).2)
    (renders : ∀ n, (calls.renderInstance n).Moves R)
    (stops : ∀ n, (calls.tearDown n).Moves R) (id : String) (body : P.Body) :
    (calls.mount id body).Moves R := by
  refine .bind composes (.look composes _) fun present => ?_
  cases present with
  | false => exact .pure composes _
  | true =>
    refine .bind composes (vacates id) fun _ => ?_
    refine .bind composes (.through fun c => added c id body) fun n => ?_
    refine .bind composes (renders n) fun result => ?_
    cases result with
    | error e => exact .bind composes (stops n) fun _ => .pure composes _
    | ok _ => exact .pure composes _

theorem moves_purge (vacates : ∀ id, (calls.unmountElement id).Moves R)
    (forgets : ∀ id, (calls.cleanUp id).Moves R) (id : String) : (calls.purge id).Moves R := by
  refine .bind composes (.look composes _) fun nested => .forM composes (fun e => ?_) nested
  exact .bind composes (vacates e) fun _ => forgets e

theorem moves_hook (scope : Option String) (ambient : Bool) (name : String)
    {f : String → Client P → Except Fault α × Client P} (hf : ∀ id c, R c (f id c).2) :
    (Calls.hook scope ambient name f : Act P μ (Except Fault α)).Moves R := by
  refine .bind composes (.look composes _) fun target => ?_
  cases target with
  | none => exact .pure composes _
  | some id => exact .through (hf id)

end Composes

end

/-! ### Regimes -/

/-- The callbacks move the client along `R`, and the cleanups also along `K`. -/
structure Calls.Keep (K R : Client P → Client P → Prop) (calls : Calls P μ) : Prop
    extends calls.Move R where
  cleanups : ∀ k, (calls.cleanup k).Moves K

/-- A relation that holds of every service as long as callbacks send no other
    requests than `ok` and keep to it, and cleanups to `K` as well.  Services that
    deal with mounted components are taken as wholes. -/
structure Regime (ok : {β : Type} → Request P β → Prop) (K R : Client P → Client P → Prop) : Prop
    extends Composes R where
  turn : ∀ {c c'}, Turn c c' → R c c'
  abandon : ok .abandon → ∀ c, R c c.abandon
  unsubscribe : ∀ {id n}, ok (.unsubscribe id n) → ∀ c, R c (c.unsubscribe id n).2
  runPass : ∀ {μ : Type} {calls : Calls P μ}, calls.Keep K R →
    ∀ id body, (calls.runPass id body).Moves R
  runEffect : ∀ {μ : Type} {calls : Calls P μ}, calls.Keep K R →
    ∀ e, (calls.runEffect e).Moves R
  cleanUp : ∀ {μ : Type} {calls : Calls P μ} {id}, ok (.cleanUp id) → calls.Keep K R →
    (calls.cleanUp id).Moves R
  reset : ∀ {μ : Type} {calls : Calls P μ}, calls.Keep K R → calls.reset.Moves R
  renderInstance : ∀ {μ : Type} {calls : Calls P μ}, calls.Keep K R →
    ∀ n, (calls.renderInstance n).Moves R
  tearDown : ∀ {μ : Type} {calls : Calls P μ}, calls.Keep K R → ∀ n, (calls.tearDown n).Moves R
  mount : ∀ {μ : Type} {calls : Calls P μ}, calls.Keep K R →
    ∀ id body, (calls.mount id body).Moves R
  purge : ∀ {μ : Type} {calls : Calls P μ}, calls.Keep K R → ∀ id, (calls.purge id).Moves R

/-- All requests of a routine are of a kind. -/
def Routine.Sends (ok : {β : Type} → Request P β → Prop) : Routine P μ α → Prop
  | .done _ => True
  | .own _ next => ∀ b, (next b).Sends ok
  | .call r next => ok r ∧ ∀ b, (next b).Sends ok

theorem Routine.sends_all (m : Routine P μ α) : m.Sends fun _ => True := by
  induction m with
  | done a => trivial
  | own f next ih => exact ih
  | call r next ih => exact ⟨trivial, ih⟩

/-- All requests of the callbacks of a program are of a kind. -/
structure Program.Sends (ok : {β : Type} → Request P β → Prop) (p : Program P μ) : Prop where
  render : ∀ id body, (p.render id body).Sends ok
  effect : ∀ e, (p.effect e).Sends ok
  cleanup : ∀ k, (p.cleanup k).Sends ok
  listener : ∀ l, (p.listener l).Sends ok
  view : ∀ v params, (p.view v params).Sends ok

theorem Program.sends_all (p : Program P μ) : p.Sends fun _ => True := by
  constructor <;> intros <;> exact Routine.sends_all _

section

variable {ok : {β : Type} → Request P β → Prop} {K R : Client P → Client P → Prop}

namespace Regime

variable (regime : Regime ok K R) {calls : Calls P μ} (callbacks : calls.Keep K R)

include regime callbacks

theorem moves_flush (id : String) : (calls.flush id).Moves R :=
  regime.toComposes.moves_flush regime.turn (regime.runEffect callbacks) id

theorem moves_pass (id : String) (body : P.Body) : (calls.pass id body).Moves R := by
  refine .bind regime.toComposes (regime.runPass callbacks id body) fun result => ?_
  refine .bind regime.toComposes (regime.moves_flush callbacks id) fun _ => ?_
  exact .pure regime.toComposes _

theorem moves_react (r : Reaction P) : (calls.react r).Moves R := by
  cases r with
  | call l => exact callbacks.listener l
  | rerender n =>
    refine .bind regime.toComposes (regime.renderInstance callbacks n) fun _ => ?_
    exact .pure regime.toComposes _

theorem moves_notify (id : String) : (calls.notify id).Moves R :=
  .bind regime.toComposes (.look regime.toComposes _) fun reactions =>
    .forM regime.toComposes (regime.moves_react callbacks) reactions

theorem moves_notifyAll : calls.notifyAll.Moves R :=
  .bind regime.toComposes (.look regime.toComposes _) fun reactions =>
    .forM regime.toComposes (regime.moves_react callbacks) reactions

theorem moves_write (s : Setter) (v : Value) : (calls.write s v).Moves R := by
  have composes := regime.toComposes
  refine .bind composes (.through fun c => regime.turn (.store c s v)) fun stored => ?_
  cases stored with
  | none => exact .pure composes _
  | some listeners =>
    refine .bind composes (.forM composes callbacks.listener listeners) fun _ => ?_
    refine .bind composes (regime.moves_notify callbacks s.component) fun _ => ?_
    exact .pure composes _

theorem moves_writeContext (h : ContextHandle) (v : Value) :
    (calls.writeContext h v).Moves R := by
  have composes := regime.toComposes
  refine .bind composes (.through fun c => regime.turn (.writeContext c h v)) fun written => ?_
  cases written with
  | error e => exact .pure composes _
  | ok _ =>
    exact .bind composes (regime.moves_notifyAll callbacks) fun _ => .pure composes _

theorem moves_unmount (n : Nat) : (calls.unmount n).Moves R := by
  refine .bind regime.toComposes (.look regime.toComposes _) fun mounted => ?_
  cases mounted with
  | true => exact regime.tearDown callbacks n
  | false => exact .pure regime.toComposes _

theorem moves_fillContainer (settings : RouterSettings) (m : RouteMatch) (html : String) :
    (calls.fillContainer settings m html).Moves R := by
  have composes := regime.toComposes
  have step (s : DocumentStep) :
      (Act.change (·.modifyDocument fun d => (s.run d).2) : Act P μ Unit).Moves R :=
    .change fun c => regime.turn (.document c s)
  have fill : (do
      Act.change (·.modifyDocument (·.setHtml settings.container html))
      Act.change (·.modifyDocument (·.execute settings.container))
      return .rendered m : Act P μ Navigation).Moves R := by
    refine .bind composes (step (.setHtml settings.container html)) fun _ => ?_
    exact .bind composes (step (.execute settings.container)) fun _ => .pure composes _
  refine .bind composes (.look composes _) fun shown => ?_
  split
  · exact .pure composes _
  · split
    · exact .bind composes (regime.purge callbacks settings.container) fun _ => fill
    · exact fill

theorem moves_navigate (id path : String) : (calls.navigate id path).Moves R := by
  have composes := regime.toComposes
  refine .bind composes (.through fun c => regime.turn (.findRoute c id path)) fun found => ?_
  cases found with
  | none => exact .pure composes _
  | some destination =>
    refine .bind composes (.look composes _) fun present => ?_
    split
    · exact .pure composes _
    · split
      · have visit : (Act.change (·.modifyDocument (·.visit path)) : Act P μ Unit).Moves R :=
          .change fun c => regime.turn (.document c (.visit path))
        refine .bind composes visit fun _ => ?_
        refine .bind composes (callbacks.view _ _) fun html => ?_
        refine .bind composes (.change fun c => regime.turn (.moveRouter c id path _)) fun _ => ?_
        refine .bind composes (regime.moves_fillContainer callbacks _ _ html) fun _ => ?_
        exact .pure composes _
      · exact .pure composes _

/-- Whatever callbacks may ask of the client, it moves by the regime. -/
theorem moves_serve (scope : Option String) {β : Type} {r : Request P β} (hr : ok r) :
    (calls.serve scope r).Moves R := by
  have composes := regime.toComposes
  cases r with
  | install => exact .through fun c => regime.turn (.install c)
  | isInstalled | currentComponent | counts | isMounted | describe | stateOf | read | readCell
  | openContext | readContext | hasContext | routerContext | reversePath =>
    unfold Calls.serve
    exact .look composes _
  | reset => exact regime.reset callbacks
  | abandon => exact .change (regime.abandon hr)
  | mount id body => exact regime.mount callbacks id body
  | unmount n => exact regime.moves_unmount callbacks n
  | dropHandle n => exact .change fun c => regime.turn (.dropHandle c n)
  | pass id body => exact regime.moves_pass callbacks id body
  | cleanUp id => exact regime.cleanUp hr callbacks
  | flush id => exact regime.moves_flush callbacks id
  | subscribe id l => exact .through fun c => regime.turn (.subscribe c id l)
  | unsubscribe id n => exact .through (regime.unsubscribe hr)
  | notify id => exact regime.moves_notify callbacks id
  | notifyAll => exact regime.moves_notifyAll callbacks
  | useState ambient v =>
    exact composes.moves_hook _ _ _ fun id c => regime.turn (.useState c id v)
  | useCell ambient v => exact composes.moves_hook _ _ _ fun id c => regime.turn (.useCell c id v)
  | useEffect ambient deps e =>
    exact composes.moves_hook _ _ _ fun id c => regime.turn (.useEffect c id deps e)
  | useContext ambient id kind => exact composes.moves_hook _ _ _ fun _ c => composes.refl c
  | write s v => exact regime.moves_write callbacks s v
  | listen s l => exact .through fun c => regime.turn (.listen c s l)
  | unlisten s n => exact .through fun c => regime.turn (.unlisten c s n)
  | writeCell r v => exact .change fun c => regime.turn (.writeCell c r v)
  | createContext id v => exact .through fun c => regime.turn (.createContext c id v)
  | writeContext h v => exact regime.moves_writeContext callbacks h v
  | deleteContext id => exact .through fun c => regime.turn (.deleteContext c id)
  | createRouter settings routes =>
    exact .change fun c => regime.turn (.createRouter c settings routes)
  | removeRouter id => exact .through fun c => regime.turn (.removeRouter c id)
  | navigate id path => exact regime.moves_navigate callbacks id path
  | document step =>
    unfold Calls.serve
    exact .through fun c => regime.turn (.document c step)

end Regime

/-! ### Runs -/

/-- A routine moves the client by a regime, if every request it sends does. -/
theorem Composes.moves_run (composes : Composes R)
    {serve : {β : Type} → Request P β → Act P μ β}
    (hs : ∀ {β : Type} {r : Request P β}, ok r → (serve r).Moves R) {m : Routine P μ α}
    (sends : m.Sends ok) : (m.run serve).Moves R := by
  induction m with
  | done a => exact .pure composes a
  | own f next ih => exact .bind composes (.own composes f) fun b => ih b (sends b)
  | call r next ih => exact .bind composes (hs sends.1) fun b => ih b (sends.2 b)

/-- Callbacks move the client by a regime, however deep they are nested. -/
theorem Regime.moves_invoke (regime : Regime ok K R) {p : Program P μ} (sends : p.Sends ok)
    (cleanups : ∀ depth k, ((p.invoke depth).cleanup k).Moves K) (depth : Nat) :
    (p.invoke depth).Keep K R := by
  refine ⟨?_, cleanups depth⟩
  induction depth with
  | zero => exact ⟨fun _ _ => .of_failure, fun _ => .of_failure, fun _ => .of_failure,
      fun _ => .of_failure, fun _ _ => .of_failure⟩
  | succ depth ih =>
    have perform {α : Type} (scope : Option String) {m : Routine P μ α} (hm : m.Sends ok) :
        (Program.perform (p.invoke depth) scope m).Moves R :=
      regime.toComposes.moves_run (regime.moves_serve ⟨ih, cleanups depth⟩ scope) hm
    exact ⟨fun _ _ => perform _ (sends.render _ _), fun _ => perform _ (sends.effect _),
      fun _ => perform _ (sends.cleanup _), fun _ => perform _ (sends.listener _),
      fun _ _ => perform _ (sends.view _ _)⟩

/-- A run moves the client by a regime that also holds of letting the client go. -/
theorem Regime.run (regime : Regime ok K R) (hsettle : ∀ c : Client P, R c c.settle)
    {p : Program P μ} (sends : p.Sends ok)
    (cleanups : ∀ depth k, ((p.invoke depth).cleanup k).Moves K) {depth : Nat}
    {m : Routine P μ α} (hm : m.Sends ok) {w w' : World P μ} {a : α}
    (h : p.run depth m w = some (a, w')) : R w.client w'.client := by
  have composes := regime.toComposes
  refine composes.moves_run (fun hr => ?_) hm w a w' h
  have callbacks := regime.moves_invoke sends cleanups depth
  refine .bind composes (regime.moves_serve callbacks none hr) fun answer => ?_
  exact .bind composes (.change hsettle) fun _ => .pure composes answer

/-! ### Laws -/

/-- A relation that holds of each small change, of a pass and of running the
    cleanups that were taken out holds of the services as wholes, whatever
    callbacks ask for. -/
theorem Composes.regime (composes : Composes R) (step : ∀ {c c'}, Step c c' → R c c')
    (passes : ∀ {μ : Type} {calls : Calls P μ}, calls.Move R →
      ∀ id body, (calls.runPass id body).Moves R)
    (takes : ∀ {μ : Type} {calls : Calls P μ}, calls.Move R →
      ∀ {take}, Take take → (calls.undoAll take).Moves R) :
    Regime (fun _ => True) (fun _ _ => True) R := by
  have turn {c c' : Client P} (h : Turn c c') : R c c' := step (.turn h)
  have forgets {μ : Type} {calls : Calls P μ} (callbacks : calls.Move R) (id : String) :
      (calls.cleanUp id).Moves R :=
    takes callbacks (.forget id)
  have effects {μ : Type} {calls : Calls P μ} (callbacks : calls.Move R) (e : PendingEffect P) :
      (calls.runEffect e).Moves R :=
    composes.moves_runEffect (fun e => takes callbacks (.takeCleanup e)) callbacks.effect
      (fun e k => takes callbacks (.settleEffect e k)) e
  have renders {μ : Type} {calls : Calls P μ} (callbacks : calls.Move R) (n : Nat) :
      (calls.renderInstance n).Moves R :=
    composes.moves_renderInstance turn (fun c n => step (.beginRender c n))
      (fun c n => step (.endRender c n)) (passes callbacks) (effects callbacks) n
  have stops {μ : Type} {calls : Calls P μ} (callbacks : calls.Move R) (n : Nat) :
      (calls.tearDown n).Moves R :=
    composes.moves_tearDown (fun n i => takes callbacks (.detach n i))
      (fun c n => step (.endSubscription c n)) (forgets callbacks) n
  have vacates {μ : Type} {calls : Calls P μ} (callbacks : calls.Move R) (id : String) :
      (calls.unmountElement id).Moves R :=
    composes.moves_unmountElement (fun c id => step (.takeMounted c id)) (stops callbacks) id
  exact
    { composes with
      turn
      abandon _ c := step (.abandon c)
      unsubscribe _ c := step (.unsubscribe c _ _)
      runPass callbacks := passes callbacks.toMove
      runEffect callbacks := effects callbacks.toMove
      cleanUp _ callbacks := forgets callbacks.toMove _
      reset callbacks := takes callbacks.toMove .clear
      renderInstance callbacks := renders callbacks.toMove
      tearDown callbacks := stops callbacks.toMove
      mount callbacks id body :=
        composes.moves_mount (vacates callbacks.toMove)
          (fun c id body => step (.addInstance c id body)) (renders callbacks.toMove)
          (stops callbacks.toMove) id body
      purge callbacks id :=
        composes.moves_purge (vacates callbacks.toMove) (forgets callbacks.toMove) id }

namespace Law

/-- A law holds of the services as wholes. -/
theorem regime (law : Law R) : Regime (fun _ => True) (fun _ _ => True) R :=
  law.toComposes.regime (fun h => law.change h.change)
    (fun callbacks id body => law.pass _ id body (callbacks.render id body))
    (fun callbacks _ taken => law.take _ taken callbacks.cleanup)

theorem moves_invoke (law : Law R) (p : Program P μ) (depth : Nat) : (p.invoke depth).Move R :=
  (law.regime.moves_invoke p.sends_all (fun _ _ _ _ _ _ => trivial) depth).toMove

/-- A run moves the client by a law that also holds of letting the client go. -/
theorem run (law : Law R) (hsettle : ∀ c : Client P, R c c.settle) {p : Program P μ}
    {depth : Nat} {m : Routine P μ α} {w w' : World P μ} {a : α}
    (h : p.run depth m w = some (a, w')) : R w.client w'.client :=
  law.regime.run hsettle p.sends_all (fun _ _ _ _ _ _ => trivial) m.sends_all h

end Law

end

/-! ### Paths -/

/-- A way from one state of the client to a later one, small step by small step.
    Every run follows one (`Path.of_run`), and so does every part of a run. -/
inductive Path : Client P → Client P → Prop
  | refl (c) : Path c c
  | change {c c' c''} (way : Path c c') (step : Change c' c'') : Path c c''
  | beginPass {c c'} (way : Path c c') (id) : Path c (c'.beginPass id).2
  | endPass {c c'} (way : Path c c') (previous) : Path c (c'.endPass previous)
  | take {c c' take} (way : Path c c') (step : Take take) : Path c (take c').2
  | note {c c'} (way : Path c c') (e) : Path c (c'.note e)
  | settle {c c'} (way : Path c c') : Path c c'.settle

theorem Path.trans {c c' c'' : Client P} (h : Path c c') (h' : Path c' c'') : Path c c'' := by
  induction h' with
  | refl => exact h
  | change _ step ih => exact .change ih step
  | beginPass _ id ih => exact .beginPass ih id
  | endPass _ previous ih => exact .endPass ih previous
  | take _ step ih => exact .take ih step
  | note _ e ih => exact .note ih e
  | settle _ ih => exact .settle ih

theorem pathLaw : Law (Path (P := P)) where
  refl := .refl
  trans := Path.trans
  change h := .change (.refl _) h
  pass calls id body hr := by
    intro w a w' h
    obtain ⟨w₁, h₁, rfl⟩ := Calls.runPass_eq_some h
    have begun : Path w.client (w.client.beginPass id).2 := .beginPass (.refl _) id
    exact .endPass (begun.trans (hr _ _ _ h₁)) w.client.current
  take calls take ht hk := by
    intro w u w' h
    rw [Calls.undoAll_eq] at h
    have taken : Path w.client (take w.client).2 := .take (.refl _) ht
    refine taken.trans (Calls.undo_induction (S := fun _ => Path) hk .refl ?_ _ h)
    intro d ds c c' c'' undone rest
    exact ((Path.note (.refl c) _).trans undone).trans rest

theorem Path.of_run {p : Program P μ} {depth : Nat} {m : Routine P μ α} {w w' : World P μ}
    {a : α} (h : p.run depth m w = some (a, w')) : Path w.client w'.client :=
  pathLaw.run (fun _ => .settle (.refl _)) h

end PageTree.Live
