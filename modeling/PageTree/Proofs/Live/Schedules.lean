/-
  PageTree/Proofs/Live/Schedules.lean
  ===================================
  **When effects run.**

  A component that only calls the hook of effects, and whose effects and cleanups
  ask for nothing, does all its work on the memory of the program.  What is done
  there, and in which order, follows from a schedule that knows of no client: a
  pass runs the body, and then attends to the effects that the body declared, one
  after another.  An effect that is due is undone, as far as it left a cleanup,
  and run.  At the end all cleanups that are left run, in the order of the hooks.

    * `Program.schedule`: the schedule, with what is known of each effect;
    * `Holds`: the slots of the component say what the schedule knows;
    * `schedule_kept`: the client keeps to the schedule.
-/
import PageTree.Proofs.Live.Chronicles
import PageTree.Proofs.Live.Silence

namespace PageTree.Live

variable {P : Callbacks} {μ α β : Type}

/-! ### The schedule -/

/-- Work on the memory of a program. -/
abbrev Work (μ α : Type) := StateT μ Option α

/-- A routine that is left to itself: it cannot ask for anything. -/
def Routine.alone : Routine P μ α → Work μ α
  | .done a => pure a
  | .own f next => fun memory => (next (f memory).1).alone (f memory).2
  | .call _ _ => failure

/-- An effect that a body calls the hook for, and what it depends on. -/
structure Declared (P : Callbacks) where
  deps : Option Deps
  effect : P.Effect

/-- A body that can ask for effects only, and the effects it declares. -/
def Routine.declares : Routine P μ α → Work μ (α × List (Declared P))
  | .done a => pure (a, [])
  | .own f next => fun memory => (next (f memory).1).declares (f memory).2
  | .call (.useEffect _ deps e) next => do
    let (a, ds) ← (next (.ok ())).declares
    return (a, ⟨deps, e⟩ :: ds)
  | .call _ _ => failure

/-- What is known of an effect of a component. -/
structure Upkeep (P : Callbacks) where
  /-- What the last run depended on, if there was one. -/
  lastRun : Option (Option Deps) := none
  /-- What undoes the last run. -/
  cleanup : Option P.Cleanup := none

/-- An effect is due unless it has run, dependencies were given then and are given
    now, and they are of one kind and equal. -/
def Upkeep.isDue (u : Upkeep P) (deps : Option Deps) : Bool :=
  match u.lastRun, deps with
  | some (some before), some now => !before.same now
  | _, _ => true

namespace Program

/-- Runs cleanups one after another. -/
def undoAlone (p : Program P μ) (ks : List P.Cleanup) : Work μ PUnit :=
  ks.forM fun k => (p.cleanup k).alone

/-- Runs an effect if it is due, after undoing its last run. -/
def attend (p : Program P μ) (d : Declared P) (u : Upkeep P) : Work μ (Upkeep P) :=
  if u.isDue d.deps then do
    p.undoAlone u.cleanup.toList
    let cleanup ← (p.effect d.effect).alone
    return ⟨some d.deps, cleanup⟩
  else return u

/-- Attends to the effects of a pass, in the order of their hooks.  Nothing is
    known of an effect that is declared for the first time. -/
def attendAll (p : Program P μ) : List (Declared P) → List (Upkeep P) → Work μ (List (Upkeep P))
  | [], us => return us
  | d :: ds, us => do
    let u ← p.attend d (us.headD {})
    let us ← p.attendAll ds us.tail
    return u :: us

/-- A pass: the body runs, then its effects are attended to. -/
def passAlone (p : Program P μ) (id : String) (us : List (Upkeep P)) (body : P.Body) :
    Work μ (List (Upkeep P)) := do
  let (_, ds) ← (p.render id body).declares
  p.attendAll ds us

/-- Passes of a component one after another, then the cleanups that are left. -/
def schedule (p : Program P μ) (id : String) (bodies : List P.Body) : Work μ Unit := do
  let us ← bodies.foldlM (p.passAlone id) []
  p.undoAlone (us.filterMap (·.cleanup))

end Program

/-- The client is asked for these passes of a component and then to forget it. -/
def lifetime (id : String) : List P.Body → Routine P μ Unit
  | [] => Routine.request (.cleanUp id)
  | body :: bodies => do
    let _ ← Routine.request (.pass id body)
    lifetime id bodies

/-- Only effects are asked for. -/
def Request.Declares : {β : Type} → Request P β → Prop
  | _, .useEffect .. => True
  | _, _ => False

/-- The bodies ask for effects only, the effects and cleanups for nothing. -/
structure Program.KeepsToEffects (p : Program P μ) : Prop where
  render : ∀ id body, (p.render id body).Sends Request.Declares
  effect : ∀ e, (p.effect e).Silent
  cleanup : ∀ k, (p.cleanup k).Silent

/-- What comes first gives an answer, so what comes next goes on from there. -/
theorem bind_of_eq_some {σ : Type} {m : StateT σ Option α} {k : α → StateT σ Option β} {s s' : σ}
    {a : α} (h : m s = some (a, s')) : (m >>= k) s = k a s' := by
  show (m s).bind _ = _
  rw [h]
  rfl

/-- A routine that asks for nothing does the same in the client as alone. -/
theorem Routine.Silent.run_alone {m : Routine P μ α} (silent : m.Silent)
    (serve : {γ : Type} → Request P γ → Act P μ γ) (c : Client P) (memory : μ) :
    ∃ a memory', m.alone memory = some (a, memory') ∧
      m.run serve ⟨c, memory⟩ = some (a, ⟨c, memory'⟩) := by
  induction m generalizing memory with
  | done a => exact ⟨a, memory, rfl, rfl⟩
  | own f next ih => exact ih (f memory).1 (silent _) (f memory).2
  | call r next => exact silent.1.elim

/-! ### What slots say -/

/-- What the slot of an effect keeps of what is known of it. -/
def Upkeep.slot (u : Upkeep P) : EffectSlot P := { cleanup := u.cleanup, deps := u.lastRun.join }

theorem Upkeep.isDue_slot (u : Upkeep P) (deps : Option Deps) :
    Deps.isDue deps u.slot.deps = u.isDue deps := by
  obtain ⟨lastRun, cleanup⟩ := u
  rcases lastRun with _ | _ | before <;> cases deps <;> rfl

/-- From a position on, slots say what is known of effects. -/
def Holds (s : Slots (EffectSlot P)) (k : Nat) (us : List (Upkeep P)) : Prop :=
  ∀ i, s.get? (k + i) = us[i]?.map Upkeep.slot

/-- What is known after a number of effects have been declared. -/
def grow : Nat → List (Upkeep P) → List (Upkeep P)
  | 0, us => us
  | n + 1, us => us.headD {} :: grow n us.tail

namespace Holds

variable {s s' : Slots (EffectSlot P)} {k : Nat} {us : List (Upkeep P)}

theorem congr (h : Holds s k us) (same : ∀ j, k ≤ j → s'.get? j = s.get? j) : Holds s' k us :=
  fun i => (same (k + i) (Nat.le_add_right k i)).trans (h i)

theorem cons_iff {u : Upkeep P} :
    Holds s k (u :: us) ↔ s.get? k = some u.slot ∧ Holds s (k + 1) us := by
  constructor
  · intro h
    refine ⟨h 0, fun i => ?_⟩
    rw [Nat.add_right_comm]
    exact h (i + 1)
  · rintro ⟨here, later⟩ i
    cases i with
    | zero => exact here
    | succ i =>
      rw [← Nat.add_assoc, Nat.add_right_comm]
      exact later i

theorem tail (h : Holds s k us) : Holds s (k + 1) us.tail := by
  cases us with
  | nil => exact fun i => (congrArg s.get? (by omega)).trans (h (i + 1))
  | cons u us => exact (cons_iff.1 h).2

/-- A slot that is reached says what is known of its effect, also if nothing is. -/
theorem getD_get? (h : Holds s k us) : (s.get? k).getD {} = (us.headD {}).slot := by
  have here : s.get? k = _ := h 0
  rw [here]
  cases us <;> rfl

end Holds

/-- What is due at the end is what the schedule knows to be left. -/
theorem Holds.cleanups {r : HookRecord P} {us : List (Upkeep P)} (h : Holds r.effects 0 us) :
    r.cleanups.map (·.cleanup) = us.filterMap (·.cleanup) := by
  have values : r.effects.values = us.map Upkeep.slot := by
    refine Slots.values_of_get? fun i => ?_
    rw [List.getElem?_map, ← h i, Nat.zero_add]
  have slots : r.cleanups.map (·.cleanup) = r.effects.values.filterMap (·.cleanup) := by
    rw [HookRecord.cleanups, Slots.values, List.map_filterMap, List.filterMap_map]
    congr 1
    funext e
    rw [HookRecord.dueAt, Option.map_map]
    exact Option.map_id'
  rw [slots, values, List.filterMap_map]
  rfl

/-! ### Declaring effects -/

section

variable (c : Client P) (id : String) (deps : Option Deps) (e : P.Effect)

/-- A call of the hook of effects reaches a slot, and queues the effect if it is due. -/
theorem useEffect_spec {k : Nat} {slot : EffectSlot P} (at_k : (c.recordOf id).cursor = k)
    (here : ((c.recordOf id).effects.get? k).getD {} = slot) :
    ((c.useEffect id deps e).recordOf id).cursor = k + 1 ∧
      ((c.useEffect id deps e).recordOf id).effects = (c.recordOf id).effects.insert k slot ∧
      (c.useEffect id deps e).pending
        = c.pending ++ (if Deps.isDue deps slot.deps then [⟨id, k, e, deps⟩] else []) ∧
      (c.useEffect id deps e).current = c.current ∧
      (c.useEffect id deps e).abandoned = c.abandoned := by
  subst at_k
  have record := get?_claim_modify c id id fun r =>
    { r with effects := r.effects.insert (c.recordOf id).cursor slot }
  have claimed : ((c.claim id).2.recordOf id).effects = (c.recordOf id).effects := by
    rw [Client.recordOf, get?_claim, if_pos rfl, Option.getD_some]
  have cursor : (c.claim id).1 = (c.recordOf id).cursor := rfl
  rw [if_pos rfl] at record
  unfold Client.useEffect
  simp only [claimed, cursor, here]
  split
  · refine ⟨?_, ?_, rfl, rfl, rfl⟩
    · rw [Client.recordOf, record]
      rfl
    · rw [Client.recordOf, record]
      rfl
  · refine ⟨?_, ?_, (List.append_nil _).symm, rfl, rfl⟩
    · rw [Client.recordOf, record]
      rfl
    · rw [Client.recordOf, record]
      rfl

end

/-- The effects of a pass that are due, from a hook position on. -/
def waiting (id : String) : Nat → List (Declared P) → List (Upkeep P) → List (PendingEffect P)
  | _, [], _ => []
  | k, d :: ds, us =>
    (if (us.headD {}).isDue d.deps then [⟨id, k, d.effect, d.deps⟩] else [])
      ++ waiting id (k + 1) ds us.tail

/-- From a position on, the slots of the component say what is known; before it they
    are the same as they were. -/
structure Advances (id : String) (k : Nat) (us : List (Upkeep P)) (c c' : Client P) : Prop where
  holds : Holds (c'.recordOf id).effects k us
  before : ∀ j < k, (c'.recordOf id).effects.get? j = (c.recordOf id).effects.get? j
  abandoned : c'.abandoned = c.abandoned

/-- A position is settled, then those after it. -/
theorem Advances.cons {id : String} {k : Nat} {u : Upkeep P} {us : List (Upkeep P)}
    {c c' c'' : Client P} (here : (c'.recordOf id).effects.get? k = some u.slot)
    (others : ∀ j ≠ k, (c'.recordOf id).effects.get? j = (c.recordOf id).effects.get? j)
    (abandoned : c'.abandoned = c.abandoned) (later : Advances id (k + 1) us c' c'') :
    Advances id k (u :: us) c c'' where
  holds := Holds.cons_iff.2 ⟨(later.before k k.lt_succ_self).trans here, later.holds⟩
  before j lt := (later.before j (Nat.lt_succ_of_lt lt)).trans (others j lt.ne)
  abandoned := later.abandoned.trans abandoned

/-- A body that asks for effects only declares the same effects in the client as
    alone, and those that are due wait. -/
theorem run_declares (calls : Calls P μ) {m : Routine P μ α} (declares : m.Sends Request.Declares)
    {id : String} {k : Nat} {us : List (Upkeep P)} {c : Client P} (memory : μ)
    (current : c.current = some id) (at_k : (c.recordOf id).cursor = k)
    (holds : Holds (c.recordOf id).effects k us) :
    ∃ a ds memory' c', m.declares memory = some ((a, ds), memory') ∧
      m.run (calls.serve (some id)) ⟨c, memory⟩ = some (a, ⟨c', memory'⟩) ∧
      Advances id k (grow ds.length us) c c' ∧ c'.pending = c.pending ++ waiting id k ds us := by
  induction m generalizing c memory k us with
  | done a =>
    exact ⟨a, [], memory, c, rfl, rfl, ⟨holds, fun _ _ => rfl, rfl⟩, (List.append_nil _).symm⟩
  | own f next ih => exact ih _ (declares _) (f memory).2 current at_k holds
  | call r next ih =>
    obtain ⟨asked, declares⟩ := declares
    cases r with
    | useEffect ambient deps e =>
      obtain ⟨cursor, effects, queued, current', abandoned⟩ :=
        useEffect_spec c id deps e at_k holds.getD_get?
      have others : ∀ j ≠ k, ((c.useEffect id deps e).recordOf id).effects.get? j
          = (c.recordOf id).effects.get? j := by
        intro j ne
        rw [effects, Slots.get?_insert_of_ne ne.symm]
      obtain ⟨a, ds, memory', c', declared, ran, advances, pending⟩ :=
        ih (.ok ()) (declares _) memory (current'.trans current) cursor
          (holds.tail.congr fun j le => others j (by omega))
      have served : calls.serve (some id) (.useEffect ambient deps e) ⟨c, memory⟩
          = some (.ok (), ⟨c.useEffect id deps e, memory⟩) :=
        hook_of_current current memory ambient "use_effect"
          fun id c => (.ok (), c.useEffect id deps e)
      refine ⟨a, ⟨deps, e⟩ :: ds, memory', c', ?_, ?_, ?_, ?_⟩
      · rw [Routine.declares, bind_of_eq_some declared]
        rfl
      · rw [Routine.run, bind_of_eq_some served, ran]
      · refine .cons ?_ others abandoned advances
        rw [effects, Slots.get?_insert_self]
      · rw [pending, queued, Upkeep.isDue_slot, List.append_assoc]
        rfl
    | _ => exact asked.elim

/-! ### Running effects -/

theorem effectSlot?_of_get? {c : Client P} {e : PendingEffect P} {slot : EffectSlot P}
    (found : (c.recordOf e.component).effects.get? e.index = some slot) :
    c.effectSlot? e = some (⟨(c.recordOf e.component).number, e.index⟩, slot) := by
  cases kept : c.records.get? e.component with
  | none =>
    rw [Client.recordOf, kept] at found
    cases found
  | some r =>
    rw [recordOf_of_get? kept] at found ⊢
    rw [Client.effectSlot?, kept, Option.bind_some, found]
    rfl

theorem recordOf_modifyEffect (c : Client P) (e : PendingEffect P)
    (f : EffectSlot P → EffectSlot P) :
    (c.modifyEffect e f).recordOf e.component
      = { c.recordOf e.component with
          effects := (c.recordOf e.component).effects.modify e.index f } := by
  simp only [Client.modifyEffect, Client.modifyRecord, Client.recordOf, OrderedMap.get?_modify,
    beq_self_eq_true, if_true]
  cases c.records.get? e.component <;> rfl

section

variable {c : Client P} {e : PendingEffect P} {slot : EffectSlot P}
  (found : (c.recordOf e.component).effects.get? e.index = some slot)

include found

theorem takeCleanup_of_get? :
    c.takeCleanup e
      = ((slot.cleanup.map (Due.mk (some ⟨(c.recordOf e.component).number, e.index⟩))).toList,
          c.modifyEffect e fun s => { s with cleanup := none }) := by
  rw [Client.takeCleanup, effectSlot?_of_get? found]
  rfl

theorem settleEffect_of_get? (k : Option P.Cleanup) :
    c.settleEffect e k
      = ([], (c.note (.ran ⟨(c.recordOf e.component).number, e.index⟩ slot.cleanup k)).modifyEffect
          e fun _ => { cleanup := k, deps := e.deps }) := by
  rw [Client.settleEffect, effectSlot?_of_get? found]

end

/-- Cleanups that ask for nothing do the same in the client as alone, and are
    noted. -/
theorem undo_alone {p : Program P μ} (silent : ∀ k, (p.cleanup k).Silent) (depth : Nat)
    (ds : List (Due P)) (c : Client P) (memory : μ) :
    ∃ memory', p.undoAlone (ds.map (·.cleanup)) memory = some ((), memory') ∧
      ds.forM (p.invoke (depth + 1)).undo ⟨c, memory⟩
        = some ((), ⟨{ c with history := (ds.map Event.undone).reverse ++ c.history },
          memory'⟩) := by
  induction ds generalizing c memory with
  | nil => exact ⟨memory, rfl, rfl⟩
  | cons d ds ih =>
    obtain ⟨_, memory₁, alone, ran⟩ := (silent d.cleanup).run_alone
      ((p.invoke depth).serve none) (c.note (.undone d)) memory
    obtain ⟨memory', later, undone⟩ := ih (c.note (.undone d)) memory₁
    have first : (p.invoke (depth + 1)).undo d ⟨c, memory⟩
        = some ((), ⟨c.note (.undone d), memory₁⟩) := ran
    have noted : ((d :: ds).map Event.undone).reverse ++ c.history
        = (ds.map Event.undone).reverse ++ (c.note (.undone d)).history := by
      simp [Client.note]
    refine ⟨memory', ?_, ?_⟩
    · exact (bind_of_eq_some alone).trans later
    · rw [noted]
      exact (bind_of_eq_some first).trans undone

section

variable {p : Program P μ} (keeps : p.KeepsToEffects) (depth : Nat)

include keeps

/-- An effect that waits is run as it would be alone, and its slot says so. -/
theorem runEffect_attends {id : String} {k : Nat} {d : Declared P} {u : Upkeep P} {c : Client P}
    (memory : μ) (due : u.isDue d.deps) (here : (c.recordOf id).effects.get? k = some u.slot) :
    ∃ u' memory' c', p.attend d u memory = some (u', memory') ∧
      (p.invoke (depth + 1)).runEffect ⟨id, k, d.effect, d.deps⟩ ⟨c, memory⟩
        = some ((), ⟨c', memory'⟩) ∧
      (c'.recordOf id).effects.get? k = some u'.slot ∧
      (∀ j ≠ k, (c'.recordOf id).effects.get? j = (c.recordOf id).effects.get? j) ∧
      c'.pending = c.pending ∧ c'.abandoned = c.abandoned := by
  let e : PendingEffect P := ⟨id, k, d.effect, d.deps⟩
  -- the cleanup of the last run, if there is one
  let c₁ := c.modifyEffect e fun s => { s with cleanup := none }
  obtain ⟨memory₁, alone₁, undone⟩ := undo_alone keeps.cleanup depth (c.takeCleanup e).1 c₁ memory
  have cleanups : (c.takeCleanup e).1.map (·.cleanup) = u.cleanup.toList := by
    rw [takeCleanup_of_get? (e := e) here]
    show (u.cleanup.map _).toList.map _ = _
    cases u.cleanup <;> rfl
  rw [cleanups] at alone₁
  let c₂ : Client P :=
    { c₁ with history := ((c.takeCleanup e).1.map Event.undone).reverse ++ c₁.history }
  have ran₁ : (p.invoke (depth + 1)).undoAll (·.takeCleanup e) ⟨c, memory⟩
      = some ((), ⟨c₂, memory₁⟩) :=
    undone
  have emptied : (c₂.recordOf id).effects
      = (c.recordOf id).effects.modify k fun s => { s with cleanup := none } :=
    congrArg HookRecord.effects (recordOf_modifyEffect c e _)
  have there : (c₂.recordOf id).effects.get? k = some { u.slot with cleanup := none } := by
    rw [emptied, Slots.get?_modify, if_pos rfl, here, Option.map_some]
  -- the run itself
  obtain ⟨cleanup, memory₂, alone₂, ran₂⟩ :=
    (keeps.effect d.effect).run_alone ((p.invoke depth).serve none) c₂ memory₁
  -- its cleanup is put into the slot, which is still there
  let c₃ := (c₂.settleEffect e cleanup).2
  have settled := settleEffect_of_get? (e := e) there cleanup
  have filled : (c₃.recordOf id).effects
      = (c₂.recordOf id).effects.modify k fun _ => { cleanup, deps := d.deps } := by
    rw [show c₃ = _ from congrArg Prod.snd settled]
    exact congrArg HookRecord.effects (recordOf_modifyEffect _ e _)
  have ran₃ : (p.invoke (depth + 1)).undoAll (·.settleEffect e cleanup) ⟨c₂, memory₂⟩
      = some ((), ⟨c₃, memory₂⟩) := by
    rw [Calls.undoAll_eq, congrArg Prod.fst settled]
    rfl
  have rest : c₃.pending = c.pending ∧ c₃.abandoned = c.abandoned := by
    rw [show c₃ = _ from congrArg Prod.snd settled]
    exact ⟨rfl, rfl⟩
  refine ⟨⟨some d.deps, cleanup⟩, memory₂, c₃, ?_, ?_, ?_, ?_, rest⟩
  · rw [Program.attend, if_pos due, bind_of_eq_some alone₁, bind_of_eq_some alone₂]
    rfl
  · exact (bind_of_eq_some ran₁).trans ((bind_of_eq_some ran₂).trans ran₃)
  · rw [filled, emptied, Slots.get?_modify, if_pos rfl, Slots.get?_modify, if_pos rfl, here]
    rfl
  · intro j ne
    rw [filled, emptied, Slots.get?_modify, if_neg ne.symm, Slots.get?_modify, if_neg ne.symm]

/-- The effects of a pass that wait are run as the schedule says. -/
theorem run_waiting {id : String} {k : Nat} {ds : List (Declared P)} {us : List (Upkeep P)}
    {c : Client P} (memory : μ) (holds : Holds (c.recordOf id).effects k (grow ds.length us)) :
    ∃ us' memory' c', p.attendAll ds us memory = some (us', memory') ∧
      (waiting id k ds us).forM (p.invoke (depth + 1)).runEffect ⟨c, memory⟩
        = some ((), ⟨c', memory'⟩) ∧
      Advances id k us' c c' ∧ c'.pending = c.pending := by
  induction ds generalizing k us c memory with
  | nil => exact ⟨us, memory, c, rfl, rfl, ⟨holds, fun _ _ => rfl, rfl⟩, rfl⟩
  | cons d ds ih =>
    obtain ⟨here, later⟩ := Holds.cons_iff.1 holds
    by_cases due : (us.headD {}).isDue d.deps
    · obtain ⟨u, memory₁, c₁, attended, ran, here₁, others, pending₁, abandoned⟩ :=
        runEffect_attends keeps depth memory due here
      obtain ⟨us', memory', c', rest, flushed, advances, pending⟩ :=
        ih memory₁ (later.congr fun j le => others j (by omega))
      refine ⟨u :: us', memory', c', ?_, ?_, .cons here₁ others abandoned advances,
        pending.trans pending₁⟩
      · rw [Program.attendAll, bind_of_eq_some attended, bind_of_eq_some rest]
        rfl
      · rw [waiting, if_pos due]
        exact (bind_of_eq_some ran).trans flushed
    · obtain ⟨us', memory', c', rest, flushed, advances, pending⟩ := ih memory later
      refine ⟨us.headD {} :: us', memory', c', ?_, ?_,
        .cons here (fun _ _ => rfl) rfl advances, pending⟩
      · have attended : p.attend d (us.headD {}) memory = some (us.headD {}, memory) := by
          rw [Program.attend, if_neg due]
          rfl
        rw [Program.attendAll, bind_of_eq_some attended, bind_of_eq_some rest]
        rfl
      · rw [waiting, if_neg due]
        exact flushed

/-! ### Passes -/

/-- Between passes the slots of the component say what the schedule knows, and none of
    its effects waits. -/
structure Rests (id : String) (us : List (Upkeep P)) (c : Client P) : Prop where
  holds : Holds (c.recordOf id).effects 0 us
  idle : ∀ e ∈ c.pending, e.component ≠ id
  staying : c.abandoned = false

omit keeps in
theorem takePending_of_append {c : Client P} {id : String} {others ours : List (PendingEffect P)}
    (pending : c.pending = others ++ ours) (apart : ∀ e ∈ others, e.component ≠ id)
    (own : ∀ e ∈ ours, e.component = id) :
    c.takePending id = (ours, { c with pending := others }) := by
  have taken : c.pending.filter (·.component == id) = ours := by
    rw [pending, List.filter_append, List.filter_eq_nil_iff.2 (by simpa using apart),
      List.filter_eq_self.2 (by simpa using own), List.nil_append]
  have left : c.pending.filter (fun e => !(e.component == id)) = others := by
    rw [pending, List.filter_append, List.filter_eq_self.2 (by simpa using apart),
      List.filter_eq_nil_iff.2 (by simpa using own), List.append_nil]
  simp only [Client.takePending, List.partition_eq_filter_filter, taken, Function.comp_def, left]

omit keeps in
theorem component_of_mem_waiting {id : String} {k : Nat} {ds : List (Declared P)}
    {us : List (Upkeep P)} {e : PendingEffect P} (h : e ∈ waiting id k ds us) :
    e.component = id := by
  induction ds generalizing k us with
  | nil => cases h
  | cons d ds ih =>
    rcases List.mem_append.1 h with here | later
    · split at here
      · rw [List.mem_singleton.1 here]
      · cases here
    · exact ih later

/-- A pass does what the schedule says. -/
theorem pass_kept {id : String} {us : List (Upkeep P)} {c : Client P} (rests : Rests id us c)
    (body : P.Body) (memory : μ) :
    ∃ a us' memory' c', p.passAlone id us body memory = some (us', memory') ∧
      (p.invoke (depth + 1)).pass id body ⟨c, memory⟩ = some (a, ⟨c', memory'⟩) ∧
      Rests id us' c' := by
  have rewound : ((c.beginPass id).2.recordOf id).cursor = 0 ∧
      ((c.beginPass id).2.recordOf id).effects = (c.recordOf id).effects := by
    simp only [Client.recordOf, Client.beginPass, OrderedMap.get?_modify, beq_self_eq_true,
      if_true]
    cases c.records.get? id <;> exact ⟨rfl, rfl⟩
  have holds : Holds ((c.beginPass id).2.recordOf id).effects 0 us := by
    rw [rewound.2]
    exact rests.holds
  obtain ⟨a, ds, memory₁, c₁, declared, rendered, advances₁, queued⟩ :=
    run_declares (p.invoke depth) (keeps.render id body) memory rfl rewound.1 holds
  let c₂ := c₁.endPass c.current
  have passed : (p.invoke (depth + 1)).runPass id body ⟨c, memory⟩ = some (a, ⟨c₂, memory₁⟩) :=
    (Act.through_bind _ _ _).trans (bind_of_eq_some rendered)
  -- the effects of the component that wait are those of this pass
  have taken : c₂.takePending id = (waiting id 0 ds us, { c₂ with pending := c.pending }) :=
    takePending_of_append queued rests.idle fun _ => component_of_mem_waiting
  obtain ⟨us', memory', c', attended, flushed, advances, pending⟩ :=
    run_waiting keeps depth (c := { c₂ with pending := c.pending }) memory₁ advances₁.holds
  refine ⟨a, us', memory', c', ?_, ?_, ⟨advances.holds, ?_, ?_⟩⟩
  · exact (bind_of_eq_some declared).trans attended
  · have flush : (p.invoke (depth + 1)).flush id ⟨c₂, memory₁⟩ = some ((), ⟨c', memory'⟩) := by
      rw [Calls.flush, Act.through_bind]
      simp only [taken]
      exact flushed
    exact (bind_of_eq_some passed).trans (bind_of_eq_some flush)
  · rw [pending]
    exact rests.idle
  · exact (advances.abandoned.trans advances₁.abandoned).trans rests.staying

/-- At the end the cleanups that are left are run. -/
theorem cleanUp_kept {id : String} {us : List (Upkeep P)} {c : Client P} (rests : Rests id us c)
    (memory : μ) :
    ∃ memory' c', p.undoAlone (us.filterMap (·.cleanup)) memory = some ((), memory') ∧
      (p.invoke (depth + 1)).cleanUp id ⟨c, memory⟩ = some ((), ⟨c', memory'⟩) ∧
      c'.abandoned = false := by
  obtain ⟨memory', alone, undone⟩ :=
    undo_alone keeps.cleanup depth (c.recordOf id).cleanups (c.forget id).2 memory
  rw [rests.holds.cleanups] at alone
  exact ⟨memory', _, alone, undone, rests.staying⟩

omit keeps in
/-- A client that was not given up stays after a request. -/
theorem serveOutside_of_served {calls : Calls P μ} {r : Request P α} {w w' : World P μ} {a : α}
    (served : calls.serve none r w = some (a, w')) (staying : w'.client.abandoned = false) :
    calls.serveOutside r w = some (a, w') := by
  have settled : w'.client.settle = w'.client := by
    rw [Client.settle, staying]
    rfl
  rw [Calls.serveOutside, bind_of_eq_some served, Act.change_bind, settled]
  rfl

/-- From any point between passes the client does what the schedule says. -/
theorem lifetime_kept {id : String} {us : List (Upkeep P)} {c : Client P} (rests : Rests id us c)
    (bodies : List P.Body) (memory : μ) :
    ∃ memory' c',
      (bodies.foldlM (p.passAlone id) us
          >>= fun us => p.undoAlone (us.filterMap (·.cleanup))) memory = some ((), memory') ∧
      p.run (depth + 1) (lifetime id bodies) ⟨c, memory⟩ = some ((), ⟨c', memory'⟩) := by
  induction bodies generalizing us c memory with
  | nil =>
    obtain ⟨memory', c', alone, cleaned, staying⟩ := cleanUp_kept keeps depth rests memory
    have served : (p.invoke (depth + 1)).serveOutside (.cleanUp id) ⟨c, memory⟩
        = some ((), ⟨c', memory'⟩) :=
      serveOutside_of_served cleaned staying
    exact ⟨memory', c', alone, bind_of_eq_some served⟩
  | cons body bodies ih =>
    obtain ⟨a, us₁, memory₁, c₁, attended, passed, rests₁⟩ :=
      pass_kept keeps depth rests body memory
    obtain ⟨memory', c', alone, ran⟩ := ih rests₁ memory₁
    have served : (p.invoke (depth + 1)).serveOutside (.pass id body) ⟨c, memory⟩
        = some (a, ⟨c₁, memory₁⟩) :=
      serveOutside_of_served passed rests₁.staying
    refine ⟨memory', c', ?_, (bind_of_eq_some served).trans ran⟩
    rw [List.foldlM_cons, bind_assoc, bind_of_eq_some attended]
    exact alone

end

/-- **The client keeps to the schedule.**  Of any component that nothing is known of:
    whatever passes it goes through, whatever effects these declare and whatever the
    effects depend on, what the callbacks do is what the schedule says, in its order. -/
theorem schedule_kept {p : Program P μ} (keeps : p.KeepsToEffects) (depth : Nat) {id : String}
    {c : Client P} (fresh : c.records.get? id = none) (idle : ∀ e ∈ c.pending, e.component ≠ id)
    (staying : c.abandoned = false) (bodies : List P.Body) (memory : μ) :
    ∃ memory' c', p.schedule id bodies memory = some ((), memory') ∧
      p.run (depth + 1) (lifetime id bodies) ⟨c, memory⟩ = some ((), ⟨c', memory'⟩) := by
  have holds : Holds (c.recordOf id).effects 0 [] := by
    rw [Client.recordOf, fresh]
    exact fun _ => rfl
  exact lifetime_kept keeps depth ⟨holds, idle, staying⟩ bodies memory

/-! ### A component with two effects -/

/-- Effects and cleanups have names.  A body lists its effects. -/
abbrev diary : Callbacks where
  Body := List (Option Deps × String)
  Effect := String
  Cleanup := String
  Listener := Unit
  View := Unit

def noteLine (line : String) : Routine diary (List String) Unit := .change (· ++ [line])

def callHooks : List (Option Deps × String) → Routine diary (List String) (Except Fault String)
  | [] => return .ok ""
  | (deps, name) :: es => do
    let _ ← Routine.request (.useEffect false deps name)
    callHooks es

/-- Everything that happens is written down. -/
def diaryProgram : Program diary (List String) where
  render _ body := do
    noteLine "pass"
    callHooks body
  effect name := do
    noteLine ("run " ++ name)
    return some name
  cleanup name := noteLine ("undo " ++ name)
  listener _ := return ()
  view _ _ := return ""

theorem callHooks_declares (es : List (Option Deps × String)) :
    (callHooks es).Sends Request.Declares := by
  induction es with
  | nil => trivial
  | cons e es ih => exact ⟨trivial, fun _ => ih⟩

theorem diaryProgram_keepsToEffects : diaryProgram.KeepsToEffects where
  render _ body := fun _ => callHooks_declares body
  effect _ := fun _ => trivial
  cleanup _ := fun _ => trivial

/-- What the first effect depends on changes once.  The second one is given
    dependencies from the third pass on. -/
def diaryPasses : List (List (Option Deps × String)) :=
  [[(some (.on (.int 1)), "a"), (none, "b")],
    [(some (.on (.int 1)), "a"), (none, "b")],
    [(some (.on (.int 2)), "a"), (some .unit, "b")],
    [(some (.on (.int 2)), "a"), (some .unit, "b")]]

def diaryLines : List String :=
  ["pass", "run a", "run b",
    "pass", "undo b", "run b",
    "pass", "undo a", "run a", "undo b", "run b",
    "pass",
    "undo a", "undo b"]

theorem diaryPasses_kept :
    ∃ c', diaryProgram.run 1 (lifetime "c" diaryPasses) ⟨Client.new {}, []⟩
      = some ((), ⟨c', diaryLines⟩) := by
  have fresh : (Client.new {} : Client diary).records.get? "c" = none := rfl
  obtain ⟨memory', c', planned, ran⟩ := schedule_kept diaryProgram_keepsToEffects 0 fresh
    (fun _ h => nomatch h) rfl diaryPasses []
  have lines : diaryProgram.schedule "c" diaryPasses [] = some ((), diaryLines) := by
    decide +kernel
  obtain rfl : diaryLines = memory' :=
    congrArg Prod.snd (Option.some.inj (lines.symm.trans planned))
  exact ⟨c', ran⟩

end PageTree.Live
