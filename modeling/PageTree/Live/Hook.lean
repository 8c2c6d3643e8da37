/-
  PageTree/Live/Hook.lean
  =======================
  **What a component keeps between render passes.**

  Every hook call of a pass claims the next position and uses the slot there.  A
  record holds the slots of one component: states, effects and cells, each by
  position.
-/
import PageTree.Live.Slots
import PageTree.Live.Value

namespace PageTree.Live

/-- The kinds of callbacks of a program.  The client keeps them until they are
    called and does not look inside. -/
structure Callbacks where
  /-- Render the markup of a component. -/
  Body : Type
  /-- Run after a render pass. -/
  Effect : Type
  /-- Undo an effect. -/
  Cleanup : Type
  /-- Are told of a change. -/
  Listener : Type
  /-- Render the markup of a route. -/
  View : Type

/-- What an effect depends on. -/
inductive Deps where
  /-- On nothing that changes. -/
  | unit
  | on (v : Value)

namespace Deps

/-- Whether two dependencies are of one kind and equal. -/
def same : Deps → Deps → Bool
  | unit, unit => true
  | on a, on b => a.same b
  | _, _ => false

/-- Whether an effect runs: always if its dependencies are not given now or were
    not given before, else if they changed. -/
def isDue (now before : Option Deps) : Bool :=
  match now, before with
  | some a, some b => !b.same a
  | _, _ => true

end Deps

/-- A state of a component. -/
structure StateSlot (P : Callbacks) where
  value : Value
  /-- The listeners of this state, in the order of their subscription. -/
  listeners : List (Nat × P.Listener) := []

/-- An effect of a component. -/
structure EffectSlot (P : Callbacks) where
  /-- What undoes the last run. -/
  cleanup : Option P.Cleanup := none
  /-- What the last run depended on. -/
  deps : Option Deps := none

/-- Names an effect slot for as long as its record lasts. -/
structure SlotName where
  record : Nat
  index : Nat
deriving DecidableEq, Repr

/-- A cleanup that is due, and the slot whose effect returned it, if there is
    one. -/
structure Due (P : Callbacks) where
  slot : Option SlotName
  cleanup : P.Cleanup

/-- What has become of an effect. -/
inductive Event (P : Callbacks) where
  /-- A run ended.  In its slot it found a cleanup and left the one it returned. -/
  | ran (slot : SlotName) (found returned : Option P.Cleanup)
  /-- A run ended whose slot was gone. -/
  | stray (returned : Option P.Cleanup)
  /-- A cleanup was run. -/
  | undone (due : Due P)

/-- The slots of a component. -/
structure HookRecord (P : Callbacks) where
  /-- Tells the record from those the component had before. -/
  number : Nat
  /-- The position that the next hook call claims. -/
  cursor : Nat := 0
  states : Slots (StateSlot P) := {}
  effects : Slots (EffectSlot P) := {}
  cells : Slots Nat := {}

namespace HookRecord

variable {P : Callbacks}

/-- The cleanup of an effect of the record that is due, if there is one. -/
def dueAt (r : HookRecord P) (e : Nat × EffectSlot P) : Option (Due P) :=
  e.2.cleanup.map (Due.mk (some ⟨r.number, e.1⟩))

/-- The cleanups that are due when the component goes away, in hook order. -/
def cleanups (r : HookRecord P) : List (Due P) := r.effects.entries.filterMap r.dueAt

/-- The record after its cleanups have been taken out. -/
def withoutCleanups (r : HookRecord P) : HookRecord P :=
  { r with effects := r.effects.map fun e => { e with cleanup := none } }

theorem cleanups_withoutCleanups (r : HookRecord P) : r.withoutCleanups.cleanups = [] := by
  simp [cleanups, withoutCleanups, Slots.map, List.filterMap_map, Function.comp_def, dueAt]

end HookRecord

/-- An effect that waits for the end of its pass. -/
structure PendingEffect (P : Callbacks) where
  component : String
  index : Nat
  effect : P.Effect
  deps : Option Deps

/-- Writes one state of a component. -/
structure Setter where
  component : String
  index : Nat
  kind : ValueKind
deriving DecidableEq, Repr

/-- Refers to a cell. -/
structure CellRef where
  cell : Nat
  kind : ValueKind
deriving DecidableEq, Repr

/-- Reads and writes one context. -/
structure ContextHandle where
  id : String
  kind : ValueKind
deriving DecidableEq, Repr

/-- How many slots and listeners a component has. -/
structure ComponentState where
  cursor : Nat := 0
  states : List Nat := []
  effects : List Nat := []
  cells : List Nat := []
  listeners : Nat := 0
deriving DecidableEq, Repr

namespace ComponentState

def isEmpty (s : ComponentState) : Bool :=
  s.states.isEmpty && s.effects.isEmpty && s.cells.isEmpty && s.listeners == 0

def toJson (s : ComponentState) : Json :=
  .object
    [("hook_index", .ofNat s.cursor), ("states", .array (s.states.map .ofNat)),
      ("effects", .array (s.effects.map .ofNat)), ("refs", .array (s.cells.map .ofNat)),
      ("listeners", .ofNat s.listeners)]

end ComponentState

end PageTree.Live
