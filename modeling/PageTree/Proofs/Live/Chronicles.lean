/-
  PageTree/Proofs/Live/Chronicles.lean
  ====================================
  **What is told of hooks.**

  A chronicle is a way from one state of the client to a later one, small step by
  small step, together with a log of what happened to the slots of components:
  passes that began, hooks that were called and what they answered, values that
  were stored, components that were forgotten.  What a step leaves out of the log
  does not show in any slot or position.

    * `Path.chronicle`: of every path, and so of every run, there is a chronicle.
    * `Does.sheet`: a deed does to the slots what it says.
-/
import PageTree.Proofs.Live.Records
import PageTree.Proofs.Live.Views

namespace PageTree.Live

variable {P : Callbacks} {μ α : Type}

/-! ### Deeds -/

/-- A call of a hook that claims a position, and its answer. -/
inductive HookCall where
  | state (initial : Value) (answer : Except Fault (Value × Setter))
  | cell (initial : Value) (answer : Except Fault CellRef)
  | effect

/-- Which hook is called, and with which kind of value. -/
inductive HookKind where
  | state (kind : ValueKind)
  | cell (kind : ValueKind)
  | effect
deriving DecidableEq, Repr

def HookCall.kind : HookCall → HookKind
  | state initial _ => .state initial.kind
  | cell initial _ => .cell initial.kind
  | effect => .effect

inductive Deed where
  /-- A pass of a component began. -/
  | began (id : String)
  /-- A hook was called for a component, and claimed the position. -/
  | called (id : String) (position : Nat) (call : HookCall)
  /-- A value was stored through a setter. -/
  | stored (s : Setter) (v : Value)
  /-- A cell was filled with a value. -/
  | filled (r : CellRef) (v : Value)
  /-- A component was forgotten. -/
  | forgot (id : String)
  /-- Everything was forgotten. -/
  | cleared

namespace Deed

/-- The component is forgotten. -/
def destroys (id : String) : Deed → Bool
  | forgot other => other == id
  | cleared => true
  | _ => false

/-- The component begins to claim positions from the first one on. -/
def restarts (id : String) : Deed → Bool
  | began other => other == id
  | d => d.destroys id

/-- A hook is called for the component. -/
def calls (id : String) : Deed → Bool
  | called other _ _ => other == id
  | _ => false

end Deed

/-! ### Sheets -/

/-- What the record of a component says of its positions. -/
@[ext]
structure Sheet where
  /-- The position that the next hook call claims. -/
  position : Nat := 0
  /-- The value of the state at a position. -/
  values : Nat → Option Value := fun _ => none
  /-- The cell at a position. -/
  cells : Nat → Option Nat := fun _ => none

namespace Sheet

/-- A hook was called: a state or a cell stays what it is, or is made. -/
def call (h : Sheet) (i : Nat) : HookCall → Sheet
  | .state initial _ =>
    { h with
      position := h.position + 1
      values := Function.update h.values i (some ((h.values i).getD initial)) }
  | .cell _ answer =>
    { h with
      position := h.position + 1
      cells := Function.update h.cells i ((h.cells i).or (answer.toOption.map (·.cell))) }
  | .effect => { h with position := h.position + 1 }

/-- What a deed does to the sheet of a component. -/
def after (id : String) : Deed → Sheet → Sheet
  | .began other, h => if other = id then { h with position := 0 } else h
  | .called other i call, h => if other = id then h.call i call else h
  | .stored s v, h =>
    if s.component = id then { h with values := Function.update h.values s.index (some v) } else h
  | .filled _ _, h => h
  | .forgot other, h => if other = id then {} else h
  | .cleared, _ => {}

end Sheet

/-- The sheet of a component after the deeds of a log, the latest first: its next
    position, the values stored or made last and the cells. -/
def sheet (id : String) (log : List Deed) : Sheet := log.foldr (Sheet.after id) {}

def HookRecord.sheet (r : HookRecord P) : Sheet where
  position := r.cursor
  values k := (r.states.get? k).map (·.value)
  cells := r.cells.get?

def Client.sheet (c : Client P) (id : String) : Sheet := (c.recordOf id).sheet

theorem sheet_eq (c : Client P) (id : String) :
    c.sheet id = ((c.records.get? id).map HookRecord.sheet).getD {} := by
  rw [Client.sheet, Client.recordOf]
  cases c.records.get? id <;> rfl

theorem sheet_congr {c c' : Client P} {id : String}
    (same : c'.records.get? id = c.records.get? id) : c'.sheet id = c.sheet id := by
  rw [sheet_eq, sheet_eq, same]

/-- Positions and slots are the same in both clients. -/
structure SameSheets (c c' : Client P) : Prop where
  sheet : ∀ id, c'.sheet id = c.sheet id
  cells : c'.cells = c.cells

theorem SameSheets.of_records {c c' : Client P} (records : c'.records = c.records)
    (cells : c'.cells = c.cells) : SameSheets c c' :=
  ⟨fun id => sheet_congr (congrArg (·.get? id) records), cells⟩

/-- The component has an effect at the position. -/
def Client.hasEffect (c : Client P) (id : String) (i : Nat) : Bool :=
  ((c.recordOf id).effects.get? i).isSome

theorem hasEffect_eq (c : Client P) (id : String) (i : Nat) :
    c.hasEffect id i = (c.records.get? id).any fun r => (r.effects.get? i).isSome := by
  rw [Client.hasEffect, Client.recordOf]
  cases c.records.get? id <;> rfl

theorem hasEffect_congr {c c' : Client P} {id : String}
    (same : c'.records.get? id = c.records.get? id) (i : Nat) :
    c'.hasEffect id i = c.hasEffect id i := by
  rw [hasEffect_eq, hasEffect_eq, same]

/-- The effects are at the same positions, too. -/
structure SameSlots (c c' : Client P) : Prop extends SameSheets c c' where
  effects : ∀ id i, c'.hasEffect id i = c.hasEffect id i

namespace SameSlots

theorem refl (c : Client P) : SameSlots c c := ⟨⟨fun _ => rfl, rfl⟩, fun _ _ => rfl⟩

theorem trans {c c' c'' : Client P} (h : SameSlots c c') (h' : SameSlots c' c'') :
    SameSlots c c'' :=
  ⟨⟨fun id => (h'.sheet id).trans (h.sheet id), h'.cells.trans h.cells⟩,
    fun id i => (h'.effects id i).trans (h.effects id i)⟩

theorem of_records {c c' : Client P} (records : c'.records = c.records)
    (cells : c'.cells = c.cells) : SameSlots c c' :=
  ⟨.of_records records cells, fun id => hasEffect_congr (congrArg (·.get? id) records)⟩

theorem of_modify {c c' : Client P} {other : String} {f : HookRecord P → HookRecord P}
    (records : c'.records = c.records.modify other f) (sheet : ∀ r, (f r).sheet = r.sheet)
    (effects : ∀ r i, ((f r).effects.get? i).isSome = (r.effects.get? i).isSome)
    (cells : c'.cells = c.cells) : SameSlots c c' := by
  refine ⟨⟨fun id => ?_, cells⟩, fun id i => ?_⟩
  · rw [sheet_eq, sheet_eq, records, OrderedMap.get?_modify]
    split
    · cases c.records.get? id with
      | none => rfl
      | some r => exact sheet r
    · rfl
  · rw [hasEffect_eq, hasEffect_eq, records, OrderedMap.get?_modify]
    split
    · cases c.records.get? id with
      | none => rfl
      | some r => exact effects r i
    · rfl

end SameSlots

/-! ### Steps that are told -/

/-- The client does a deed. -/
inductive Does : Client P → Deed → Client P → Prop
  | begins (c id) : Does c (.began id) (c.beginPass id).2
  | useState (c id v) :
      Does c (.called id (c.claim id).1 (.state v (c.useState id v).1)) (c.useState id v).2
  | useCell (c id v) :
      Does c (.called id (c.claim id).1 (.cell v (c.useCell id v).1)) (c.useCell id v).2
  | useEffect (c id deps e) : Does c (.called id (c.claim id).1 .effect) (c.useEffect id deps e)
  | stores {c s v} (changed : (c.store s v).1.isSome) : Does c (.stored s v) (c.store s v).2
  | fills (c) {r v} (kind : v.kind = r.kind) : Does c (.filled r v) (c.writeCell r v)
  | forgets (c id) : Does c (.forgot id) (c.forget id).2
  | clears (c) : Does c .cleared c.clear.2
  | releases {c} (given_up : c.abandoned = true) : Does c .cleared c.settle

theorem Does.path {c c' : Client P} {d : Deed} (did : Does c d c') : Path c c' := by
  cases did with
  | begins id => exact .beginPass (.refl c) id
  | useState id v => exact .change (.refl c) (.useState c id v)
  | useCell id v => exact .change (.refl c) (.useCell c id v)
  | useEffect id deps e => exact .change (.refl c) (.useEffect c id deps e)
  | stores => exact .change (.refl c) (.store c _ _)
  | fills => exact .change (.refl c) (.writeCell c _ _)
  | forgets id =>
    have way := Path.take (.refl c) (.forget id)
    exact way
  | clears =>
    have way := Path.take (.refl c) .clear
    exact way
  | releases => exact .settle (.refl c)

/-- The small steps of the client. -/
inductive Motion : Client P → Client P → Prop
  | change {c c'} (h : Change c c') : Motion c c'
  | beginPass (c id) : Motion c (c.beginPass id).2
  | endPass (c previous) : Motion c (c.endPass previous)
  | take (c) {take} (h : Take take) : Motion c (take c).2
  | note (c e) : Motion c (c.note e)
  | settle (c) : Motion c c.settle

theorem Motion.path {c c' : Client P} (h : Motion c c') : Path c c' := by
  cases h with
  | change h => exact .change (.refl c) h
  | beginPass id => exact .beginPass (.refl c) id
  | endPass previous => exact .endPass (.refl c) previous
  | take h => exact .take (.refl c) h
  | note e => exact .note (.refl c) e
  | settle => exact .settle (.refl c)

theorem store_of_isNone {c : Client P} {s : Setter} {v : Value}
    (unchanged : (c.store s v).1.isSome = false) : (c.store s v).2 = c := by
  unfold Client.store at unchanged ⊢
  cases found : c.stateSlot? s with
  | none => rfl
  | some slot =>
    simp only [found] at unchanged ⊢
    split at unchanged
    · next same => rw [if_pos same]
    · cases unchanged

theorem sameSlots_modifyListeners (c : Client P) (s : Setter)
    (f : List (Nat × P.Listener) → List (Nat × P.Listener)) :
    SameSlots c (c.modifyState s fun slot => { slot with listeners := f slot.listeners }) := by
  refine .of_modify rfl (fun r => ?_) (fun _ _ => rfl) rfl
  have values : ∀ k, ((r.states.modify s.index fun slot =>
      { slot with listeners := f slot.listeners }).get? k).map (·.value)
        = (r.states.get? k).map (·.value) := by
    intro k
    rw [Slots.get?_modify]
    split
    · rw [Option.map_map]
      rfl
    · rfl
  exact congrArg (fun values => { r.sheet with values }) (funext values)

theorem sameSlots_modifyEffect (c : Client P) (e : PendingEffect P)
    (f : EffectSlot P → EffectSlot P) : SameSlots c (c.modifyEffect e f) := by
  refine .of_modify rfl (fun _ => rfl) (fun r k => ?_) rfl
  simp only [Slots.get?_modify]
  split
  · rw [Option.isSome_map]
  · rfl

/-- A small change is a deed, or nothing shows of it. -/
theorem Change.told {c c' : Client P} (h : Change c c') :
    (∃ d, Does c d c') ∨ SameSlots c c' := by
  cases h with
  | useState id v => exact .inl ⟨_, .useState c id v⟩
  | useCell id v => exact .inl ⟨_, .useCell c id v⟩
  | useEffect id deps e => exact .inl ⟨_, .useEffect c id deps e⟩
  | store s v =>
    cases changed : (c.store s v).1.isSome with
    | true => exact .inl ⟨_, .stores changed⟩
    | false =>
      rw [store_of_isNone changed]
      exact .inr (.refl c)
  | writeCell r v =>
    by_cases kind : v.kind = r.kind
    · exact .inl ⟨_, .fills c kind⟩
    · rw [Client.writeCell, if_neg kind]
      exact .inr (.refl c)
  | listen s l =>
    have counted : SameSlots c { c with nextListener := c.nextListener + 1 } :=
      .of_records rfl rfl
    exact .inr (counted.trans (sameSlots_modifyListeners _ s (· ++ [(c.nextListener, l)])))
  | unlisten s n => exact .inr (sameSlots_modifyListeners c s (·.filter (·.1 != n)))
  | writeContext h v =>
    unfold Client.writeContext
    split
    · exact .inr (.refl c)
    · split <;> exact .inr (.of_records rfl rfl)
  | findRoute id path =>
    unfold Client.findRoute
    split <;> exact .inr (.of_records rfl rfl)
  | beginRender n =>
    unfold Client.beginRender
    split
    · exact .inr (.refl c)
    · split <;> exact .inr (.of_records rfl rfl)
  | endSubscription n =>
    unfold Client.endSubscription
    split
    · exact .inr (.refl c)
    · dsimp only
      split <;> exact .inr (.of_records rfl rfl)
  | _ => exact .inr (.of_records rfl rfl)

theorem Take.told {take : Client P → List (Due P) × Client P} (h : Take take) (c : Client P) :
    (∃ d, Does c d (take c).2) ∨ SameSlots c (take c).2 := by
  cases h with
  | takeCleanup e => exact .inr (sameSlots_modifyEffect c e _)
  | settleEffect e k =>
    simp only [Client.settleEffect]
    split
    · have noted {event : Event P} : SameSlots c (c.note event) := .of_records rfl rfl
      exact .inr (noted.trans (sameSlots_modifyEffect _ e _))
    · exact .inr (.of_records rfl rfl)
  | forget id => exact .inl ⟨_, .forgets c id⟩
  | detach n i =>
    refine .inr (.of_modify (detach_eq c n i).2.1 (fun _ => rfl) (fun r k => ?_) ?_)
    · rw [HookRecord.withoutCleanups, Slots.get?_map, Option.isSome_map]
    · simp only [Client.detach]
      split <;> rfl
  | clear => exact .inl ⟨_, .clears c⟩

theorem Motion.told {c c' : Client P} (h : Motion c c') :
    (∃ d, Does c d c') ∨ SameSlots c c' := by
  cases h with
  | change h => exact h.told
  | beginPass id => exact .inl ⟨_, .begins c id⟩
  | endPass previous => exact .inr (.of_records rfl rfl)
  | take h => exact h.told c
  | note e => exact .inr (.of_records rfl rfl)
  | settle =>
    cases given_up : c.abandoned with
    | true => exact .inl ⟨_, .releases given_up⟩
    | false =>
      rw [Client.settle, given_up]
      exact .inr (.refl c)

/-! ### What deeds do to slots -/

theorem Slots.get?_insert (s : Slots α) (i : Nat) (a : α) :
    (s.insert i a).get? = Function.update s.get? i (some a) := by
  funext k
  rw [Function.update_apply]
  split
  · next here => rw [here, Slots.get?_insert_self]
  · next other => exact Slots.get?_insert_of_ne (Ne.symm other) s a

section

variable (c : Client P) (id other : String)

theorem get?_claim :
    (c.claim id).2.records.get? other
      = if id = other then
          some { c.recordOf id with cursor := (c.recordOf id).cursor + 1 }
        else c.records.get? other := by
  rw [Client.claim, OrderedMap.get?_insert]
  simp only [beq_iff_eq]

/-- A record that was changed after a position of it was claimed. -/
theorem get?_claim_modify (f : HookRecord P → HookRecord P) :
    ((c.claim id).2.modifyRecord id f).records.get? other
      = if id = other then
          some (f { c.recordOf id with cursor := (c.recordOf id).cursor + 1 })
        else c.records.get? other := by
  rw [Client.modifyRecord, OrderedMap.get?_modify, get?_claim]
  by_cases here : id = other
  · simp [here]
  · simp [here]

theorem useEffect_records (deps : Option Deps) (e : P.Effect) :
    ∃ slot, (c.useEffect id deps e).records.get? other
      = if id = other then
          some { c.recordOf id with
            cursor := (c.recordOf id).cursor + 1
            effects := (c.recordOf id).effects.insert (c.recordOf id).cursor slot }
        else c.records.get? other := by
  have claimed := fun slot => get?_claim_modify c id other
    fun r => { r with effects := r.effects.insert (c.recordOf id).cursor slot }
  unfold Client.useEffect
  dsimp only
  split
  · exact ⟨_, claimed _⟩
  · exact ⟨_, claimed _⟩

variable {c id} (initial : Value)

theorem useCell_of_kept {cell : Nat}
    (kept : (c.recordOf id).cells.get? (c.recordOf id).cursor = some cell) :
    c.useCell id initial
      = (if (c.cellValue cell).kind = initial.kind then .ok ⟨cell, initial.kind⟩
          else .error (.hookChanged id (c.recordOf id).cursor), (c.claim id).2) := by
  have claimed : c.claim id = ((c.recordOf id).cursor, (c.claim id).2) := rfl
  have cells : ((c.claim id).2.recordOf id).cells = (c.recordOf id).cells := by
    rw [Client.recordOf, get?_claim, if_pos rfl, Option.getD_some]
  have value : (c.claim id).2.cellValue cell = c.cellValue cell := rfl
  rw [Client.useCell, claimed]
  simp only [cells, kept, value]
  split <;> rfl

/-- A cell that is not there yet is made, with the next number. -/
theorem useCell_of_none
    (unmade : (c.recordOf id).cells.get? (c.recordOf id).cursor = none) :
    (c.useCell id initial).1 = .ok ⟨c.cells.length, initial.kind⟩ ∧
      (c.useCell id initial).2.cells = c.cells ++ [initial] ∧
      (c.useCell id initial).2.records.get? other
        = if id = other then
            some { c.recordOf id with
              cursor := (c.recordOf id).cursor + 1
              cells := (c.recordOf id).cells.insert (c.recordOf id).cursor c.cells.length }
          else c.records.get? other := by
  have claimed : c.claim id = ((c.recordOf id).cursor, (c.claim id).2) := rfl
  have cells : ((c.claim id).2.recordOf id).cells = (c.recordOf id).cells := by
    rw [Client.recordOf, get?_claim, if_pos rfl, Option.getD_some]
  rw [Client.useCell, claimed]
  simp only [cells, unmade]
  refine ⟨rfl, rfl, ?_⟩
  exact get?_claim_modify c id other fun r =>
    { r with cells := r.cells.insert (c.recordOf id).cursor c.cells.length }

end

theorem store_of_isSome {c : Client P} {s : Setter} {v : Value}
    (changed : (c.store s v).1.isSome) :
    v.kind = s.kind ∧ (∃ slot, c.stateSlot? s = some slot) ∧
      (c.store s v).2 = c.modifyState s fun slot => { slot with value := v } := by
  unfold Client.store at changed ⊢
  cases found : c.stateSlot? s with
  | none => simp [found] at changed
  | some slot =>
    simp only [found] at changed ⊢
    split at changed
    · simp at changed
    · next allowed =>
      rw [if_neg allowed]
      exact ⟨by simpa using (not_or.1 allowed).1, ⟨slot, rfl⟩, rfl⟩

theorem Numbered.nodup_keys {c : Client P} (numbered : Numbered c) : c.records.keys.Nodup := by
  have keys : (tags c).map Prod.fst = c.records.keys := by
    rw [tags, List.map_map]
    rfl
  exact keys ▸ numbered.keys

/-- The sheet of a component that was given a record. -/
theorem sheet_of_get? {c c' : Client P} {id other : String} {r : HookRecord P}
    (given : c'.records.get? other = if id = other then some r else c.records.get? other) :
    c'.sheet other = if id = other then r.sheet else c.sheet other := by
  rw [sheet_eq, given]
  split
  · rfl
  · rw [sheet_eq]

section

variable (c : Client P) (id other : String) (v : Value)

theorem sheet_useState :
    (c.useState id v).2.sheet other
      = Sheet.after other (.called id (c.claim id).1 (.state v (c.useState id v).1))
          (c.sheet other) := by
  rw [sheet_of_get? ((useState_records c id v).2.2 other), Sheet.after]
  split
  swap
  · rfl
  next here =>
  subst here
  have values : ((c.recordOf id).withState v).sheet.values
      = Function.update (c.sheet id).values (c.recordOf id).cursor
          (some (((c.sheet id).values (c.recordOf id).cursor).getD v)) := by
    funext k
    have kept := stored_useState c id v k
    rw [Client.stored, recordOf_useState] at kept
    rw [Function.update_apply]
    refine kept.trans ?_
    by_cases at_k : (c.recordOf id).cursor = k
    · rw [if_pos at_k, if_pos at_k.symm, ← at_k]
      rfl
    · rw [if_neg at_k, if_neg (Ne.symm at_k)]
      rfl
  exact Sheet.ext rfl values rfl

theorem sheet_useCell :
    (c.useCell id v).2.sheet other
      = Sheet.after other (.called id (c.claim id).1 (.cell v (c.useCell id v).1))
          (c.sheet other) := by
  have position : (c.claim id).1 = (c.recordOf id).cursor := rfl
  have cells : (c.sheet id).cells = (c.recordOf id).cells.get? := rfl
  rw [position]
  cases found : (c.recordOf id).cells.get? (c.recordOf id).cursor with
  | some cell =>
    -- the cell is there, and stays there whatever the answer is
    rw [useCell_of_kept v found, sheet_of_get? (get?_claim c id other), Sheet.after]
    split
    · next here =>
      subst here
      refine Sheet.ext rfl rfl ?_
      rw [Sheet.call, cells, found, Option.some_or]
      exact (Function.update_eq_self_iff.2 found.symm).symm
    · rfl
  | none =>
    obtain ⟨answer, _, given⟩ := useCell_of_none other v found
    rw [answer, sheet_of_get? given, Sheet.after]
    split
    · next here =>
      subst here
      refine Sheet.ext rfl rfl ?_
      rw [Sheet.call, cells, found, Option.none_or]
      exact Slots.get?_insert _ _ _
    · rfl

theorem sheet_useEffect (deps : Option Deps) (e : P.Effect) :
    (c.useEffect id deps e).sheet other
      = Sheet.after other (.called id (c.claim id).1 .effect) (c.sheet other) := by
  obtain ⟨slot, given⟩ := useEffect_records c id other deps e
  rw [sheet_of_get? given, Sheet.after]
  split
  · next here =>
    subst here
    rfl
  · rfl

end

theorem sheet_beginPass (c : Client P) (id other : String) :
    (c.beginPass id).2.sheet other = Sheet.after other (.began id) (c.sheet other) := by
  rw [sheet_eq, sheet_eq, Client.beginPass, OrderedMap.get?_modify, Sheet.after]
  simp only [beq_iff_eq]
  split
  · cases c.records.get? other <;> rfl
  · rfl

theorem sheet_store {c : Client P} {s : Setter} {v : Value}
    (changed : (c.store s v).1.isSome) (id : String) :
    (c.store s v).2.sheet id = Sheet.after id (.stored s v) (c.sheet id) := by
  obtain ⟨_, ⟨slot, found⟩, stored⟩ := store_of_isSome changed
  obtain ⟨r, record, there⟩ := Option.bind_eq_some_iff.1 found
  rw [stored, sheet_eq, sheet_eq, Client.modifyState, Client.modifyRecord, OrderedMap.get?_modify,
    Sheet.after]
  simp only [beq_iff_eq]
  split
  swap
  · rfl
  next here =>
  subst here
  rw [record, Option.map_some, Option.map_some, Option.getD_some, Option.map_some,
    Option.getD_some]
  have values : (fun k => ((r.states.modify s.index fun slot =>
      { slot with value := v }).get? k).map (·.value))
        = Function.update r.sheet.values s.index (some v) := by
    funext k
    rw [Slots.get?_modify, Function.update_apply]
    by_cases at_k : s.index = k
    · rw [if_pos at_k, if_pos at_k.symm, ← at_k, there]
      rfl
    · rw [if_neg at_k, if_neg (Ne.symm at_k)]
      rfl
  exact Sheet.ext rfl values rfl

theorem sheet_forget {c : Client P} (keys : c.records.keys.Nodup) (id other : String) :
    (c.forget id).2.sheet other = Sheet.after other (.forgot id) (c.sheet other) := by
  have forgotten : (c.forget id).2.records = c.records.erase id := rfl
  rw [sheet_eq, sheet_eq, forgotten, get?_erase keys, Sheet.after]
  split <;> rfl

/-- The slots of every component after a deed are what the deed makes of them. -/
theorem Does.sheet {c c' : Client P} {d : Deed} (did : Does c d c') (numbered : Numbered c)
    (id : String) : c'.sheet id = Sheet.after id d (c.sheet id) := by
  cases did with
  | begins other => exact sheet_beginPass c other id
  | useState other v => exact sheet_useState c other id v
  | useCell other v => exact sheet_useCell c other id v
  | useEffect other deps e => exact sheet_useEffect c other id deps e
  | stores changed => exact sheet_store changed id
  | fills kind =>
    rw [Client.writeCell, if_pos kind]
    exact sheet_congr rfl
  | forgets other => exact sheet_forget numbered.nodup_keys other id
  | clears => exact sheet_eq _ _
  | releases given_up =>
    rw [Client.settle, if_pos given_up]
    exact sheet_eq _ _

/-! ### Chronicles -/

/-- A way of the client, and the log of its deeds, the latest first.  A step is left
    out of the log only if nothing shows of it. -/
inductive Chronicle : Client P → List Deed → Client P → Prop
  | refl (c) : Chronicle c [] c
  | deed {c log c' d c''} (told : Chronicle c log c') (did : Does c' d c'') :
      Chronicle c (d :: log) c''
  | aside {c log c' c''} (told : Chronicle c log c') (motion : Motion c' c'')
      (same : SameSheets c' c'') : Chronicle c log c''

namespace Chronicle

variable {c c' c'' : Client P} {log later earlier : List Deed}

theorem trans (h : Chronicle c earlier c') (h' : Chronicle c' later c'') :
    Chronicle c (later ++ earlier) c'' := by
  induction h' with
  | refl => exact h
  | deed _ did ih => exact .deed ih did
  | aside _ motion same ih => exact .aside ih motion same

theorem path (h : Chronicle c log c') : Path c c' := by
  induction h with
  | refl => exact .refl _
  | deed _ did ih => exact ih.trans did.path
  | aside _ motion _ ih => exact ih.trans motion.path

theorem extend (h : ∃ log, Chronicle c log c') (motion : Motion c' c'') :
    ∃ log, Chronicle c log c'' := by
  obtain ⟨log, told⟩ := h
  rcases motion.told with ⟨d, did⟩ | same
  · exact ⟨d :: log, .deed told did⟩
  · exact ⟨log, .aside told motion same.toSameSheets⟩

/-- A chronicle of which a deed is told passes through the deed. -/
theorem split {d : Deed} (h : Chronicle c (later ++ d :: earlier) c') :
    ∃ c₁ c₂, Chronicle c earlier c₁ ∧ Does c₁ d c₂ ∧ Chronicle c₂ later c' := by
  generalize whole : later ++ d :: earlier = log at h
  induction h generalizing later with
  | refl => exact absurd whole (by simp)
  | aside _ motion same ih =>
    obtain ⟨c₁, c₂, before, did, after⟩ := ih whole
    exact ⟨c₁, c₂, before, did, .aside after motion same⟩
  | deed told last ih =>
    cases later with
    | nil =>
      obtain ⟨rfl, rfl⟩ := List.cons.inj whole
      exact ⟨_, _, told, last, .refl _⟩
    | cons _ later =>
      obtain ⟨rfl, rest⟩ := List.cons.inj whole
      obtain ⟨c₁, c₂, before, did, after⟩ := ih rest
      exact ⟨c₁, c₂, before, did, .deed after last⟩

end Chronicle

/-- What happens on a path can be told. -/
theorem Path.chronicle {c c' : Client P} (h : Path c c') : ∃ log, Chronicle c log c' := by
  induction h with
  | refl => exact ⟨[], .refl _⟩
  | change _ step ih => exact Chronicle.extend ih (.change step)
  | beginPass _ id ih => exact Chronicle.extend ih (.beginPass _ id)
  | endPass _ previous ih => exact Chronicle.extend ih (.endPass _ previous)
  | take _ step ih => exact Chronicle.extend ih (.take _ step)
  | note _ e ih => exact Chronicle.extend ih (.note _ e)
  | settle _ ih => exact Chronicle.extend ih (.settle _)

end PageTree.Live
