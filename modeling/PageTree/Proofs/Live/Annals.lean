/-
  PageTree/Proofs/Live/Annals.lean
  ================================
  **Which hooks have slots.**

  States, cells and effects have slots of their own, each by position.  Annals are
  chronicles in which no effect comes or goes unsaid, so all slots can be read off
  them: a component has those that its hooks have claimed since it was forgotten
  last, in whatever pass and whatever they answered.

    * `Path.annals`: there are annals of every path, and so of every run;
    * `Does.has_iff`: what a deed does to the slots of a sort;
    * `Annals.has_iff`, `Annals.mem_positions_iff`: the slots that a component has.
-/
import PageTree.Proofs.Live.Positions

namespace PageTree.Live

variable {P : Callbacks} {document : Document} {c c' c'' : Client P}
  {log later earlier : List Deed} {id : String} {i : Nat}

/-! ### Sorts of hooks -/

/-- The sorts of hooks that claim positions. -/
inductive HookSort where
  | state
  | cell
  | effect
deriving DecidableEq, Repr

def HookCall.sort : HookCall → HookSort
  | .state .. => .state
  | .cell .. => .cell
  | .effect => .effect

variable {sort : HookSort}

theorem Slots.mem_indices_iff {α : Type} {s : Slots α} : i ∈ s.indices ↔ (s.get? i).isSome := by
  rw [Slots.get?, Option.isSome_iff_ne_none, ne_eq, Slots.find?_eq_none_iff, Slots.indices,
    List.mem_map]
  push Not
  rfl

/-- The positions of the slots of a sort. -/
def ComponentState.positions (s : ComponentState) : HookSort → List Nat
  | .state => s.states
  | .cell => s.cells
  | .effect => s.effects

/-- The component has a slot of the sort at the position. -/
def Client.has (c : Client P) (id : String) : HookSort → Nat → Bool
  | .state, i => ((c.sheet id).values i).isSome
  | .cell, i => ((c.sheet id).cells i).isSome
  | .effect, i => c.hasEffect id i

theorem mem_positions_iff : i ∈ (c.stateOf id).positions sort ↔ c.has id sort i := by
  cases sort with
  | state =>
    have value : ((c.sheet id).values i).isSome = ((c.recordOf id).states.get? i).isSome :=
      Option.isSome_map
    rw [Client.has, value]
    exact Slots.mem_indices_iff
  | cell => exact Slots.mem_indices_iff
  | effect => exact Slots.mem_indices_iff

/-- The slots of every component are at the same positions. -/
theorem SameSlots.has (same : SameSlots c c') (id : String) (sort : HookSort) (i : Nat) :
    c'.has id sort i = c.has id sort i := by
  cases sort with
  | effect => exact same.effects id i
  | _ => rw [Client.has, Client.has, same.sheet id]

/-! ### Annals -/

/-- A chronicle in which all slots are kept track of. -/
inductive Annals : Client P → List Deed → Client P → Prop
  | refl (c : Client P) : Annals c [] c
  | deed {c c' c'' : Client P} {log : List Deed} {d : Deed} (told : Annals c log c')
      (did : Does c' d c'') : Annals c (d :: log) c''
  | aside {c c' c'' : Client P} {log : List Deed} (told : Annals c log c')
      (motion : Motion c' c'') (same : SameSlots c' c'') : Annals c log c''

namespace Annals

theorem chronicle (h : Annals c log c') : Chronicle c log c' := by
  induction h with
  | refl => exact .refl _
  | deed _ did ih => exact .deed ih did
  | aside _ motion same ih => exact .aside ih motion same.toSameSheets

theorem trans (h : Annals c earlier c') (h' : Annals c' later c'') :
    Annals c (later ++ earlier) c'' := by
  induction h' with
  | refl => exact h
  | deed _ did ih => exact .deed ih did
  | aside _ motion same ih => exact .aside ih motion same

theorem extend (h : ∃ log, Annals c log c') (motion : Motion c' c'') :
    ∃ log, Annals c log c'' := by
  obtain ⟨log, told⟩ := h
  rcases motion.told with ⟨d, did⟩ | same
  · exact ⟨d :: log, .deed told did⟩
  · exact ⟨log, .aside told motion same⟩

/-- Annals that tell of a deed pass through it. -/
theorem split {d : Deed} (h : Annals c (later ++ d :: earlier) c') :
    ∃ c₁ c₂, Annals c earlier c₁ ∧ Does c₁ d c₂ ∧ Annals c₂ later c' := by
  generalize whole : later ++ d :: earlier = log at h
  induction h generalizing later with
  | refl => exact absurd whole (by simp)
  | aside _ motion same ih =>
    obtain ⟨c₁, c₂, before, did, after⟩ := ih whole
    exact ⟨c₁, c₂, before, did, .aside after motion same⟩
  | deed told last ih =>
    cases later with
    | nil =>
      obtain ⟨rfl, rfl⟩ := List.cons.inj whole
      exact ⟨_, _, told, last, .refl _⟩
    | cons _ later =>
      obtain ⟨rfl, rest⟩ := List.cons.inj whole
      obtain ⟨c₁, c₂, before, did, after⟩ := ih rest
      exact ⟨c₁, c₂, before, did, .deed after last⟩

end Annals

/-- What happens on a path can be told so that all slots are kept track of. -/
theorem Path.annals (h : Path c c') : ∃ log, Annals c log c' := by
  induction h with
  | refl => exact ⟨[], .refl _⟩
  | change _ step ih => exact Annals.extend ih (.change step)
  | beginPass _ id ih => exact Annals.extend ih (.beginPass _ id)
  | endPass _ previous ih => exact Annals.extend ih (.endPass _ previous)
  | take _ step ih => exact Annals.extend ih (.take _ step)
  | note _ e ih => exact Annals.extend ih (.note _ e)
  | settle _ ih => exact Annals.extend ih (.settle _)

/-! ### What a deed does to the slots of a sort -/

namespace Deed

/-- A hook of the sort claims the position of the component. -/
def claims (id : String) (sort : HookSort) (i : Nat) : Deed → Bool
  | called other k call => other == id && k == i && call.sort == sort
  | _ => false

end Deed

/-- The effects of a component that was given a record. -/
theorem hasEffect_of_get? {other : String} {r : HookRecord P}
    (given : c'.records.get? other = if id = other then some r else c.records.get? other) :
    c'.hasEffect other i
      = if id = other then (r.effects.get? i).isSome else c.hasEffect other i := by
  rw [hasEffect_eq, given]
  split
  · rfl
  · rw [hasEffect_eq]

theorem hasEffect_modify {other : String} {f : HookRecord P → HookRecord P}
    (records : c'.records = c.records.modify other f)
    (kept : ∀ r, (f r).effects = r.effects) : c'.hasEffect id i = c.hasEffect id i := by
  rw [hasEffect_eq, hasEffect_eq, records, OrderedMap.get?_modify]
  split
  · cases c.records.get? id with
    | none => rfl
    | some r => simp [kept]
  · rfl

/-- A component that is given a record with its own effects keeps them. -/
theorem hasEffect_of_kept {other : String} {r : HookRecord P}
    (given : c'.records.get? other = if id = other then some r else c.records.get? other)
    (kept : r.effects = (c.recordOf id).effects) :
    c'.hasEffect other i = c.hasEffect other i := by
  rw [hasEffect_of_get? given]
  split
  · next here =>
    rw [kept, here]
    rfl
  · rfl

theorem hasEffect_useCell (c : Client P) (other id : String) (v : Value) (i : Nat) :
    (c.useCell other v).2.hasEffect id i = c.hasEffect id i := by
  cases found : (c.recordOf other).cells.get? (c.recordOf other).cursor with
  | some cell =>
    rw [useCell_of_kept v found]
    exact hasEffect_of_kept (get?_claim c other id) rfl
  | none => exact hasEffect_of_kept (useCell_of_none id v found).2.2 rfl

theorem hasEffect_useEffect (c : Client P) (other id : String) (deps : Option Deps)
    (e : P.Effect) (i : Nat) :
    (c.useEffect other deps e).hasEffect id i
      = ((Deed.called other (c.claim other).1 .effect).claims id .effect i
          || c.hasEffect id i) := by
  obtain ⟨slot, given⟩ := useEffect_records c other id deps e
  have claimed : (c.claim other).1 = (c.recordOf other).cursor := rfl
  rw [hasEffect_of_get? given, claimed]
  by_cases here : other = id
  · subst here
    by_cases at_i : (c.recordOf other).cursor = i
    · subst at_i
      simp [Deed.claims, HookCall.sort]
    · simp [Deed.claims, Slots.get?_insert_of_ne at_i, at_i, Client.hasEffect]
  · simp [Deed.claims, here]

/-- Effects come with the hooks that are called for them, and go with the component. -/
theorem Does.hasEffect {d : Deed} (did : Does c d c') (numbered : Numbered c) :
    c'.hasEffect id i
      = (!d.destroys id && (d.claims id .effect i || c.hasEffect id i)) := by
  cases did with
  | begins other => exact hasEffect_modify rfl fun _ => rfl
  | useState other v =>
    exact (hasEffect_of_kept ((useState_records c other v).2.2 id) rfl).trans (by
      simp [Deed.destroys, Deed.claims, HookCall.sort])
  | useCell other v =>
    exact (hasEffect_useCell c other id v i).trans (by
      simp [Deed.destroys, Deed.claims, HookCall.sort])
  | useEffect other deps e => exact hasEffect_useEffect c other id deps e i
  | stores changed =>
    rw [(store_of_isSome changed).2.2]
    exact hasEffect_modify rfl fun _ => rfl
  | fills kind =>
    rw [Client.writeCell, if_pos kind]
    exact hasEffect_congr rfl i
  | forgets other =>
    have forgotten : (c.forget other).2.records = c.records.erase other := rfl
    rw [hasEffect_eq, forgotten, get?_erase numbered.nodup_keys, hasEffect_eq]
    by_cases here : other = id
    · simp [here, Deed.destroys]
    · simp [here, Deed.destroys, Deed.claims]
  | clears => exact hasEffect_eq _ _ _
  | releases given_up =>
    rw [Client.settle, if_pos given_up]
    exact hasEffect_eq _ _ _

theorem Does.has_stored {s : Setter} {v : Value} (did : Does c (.stored s v) c') :
    c.has s.component .state s.index := by
  cases did with
  | stores changed =>
    obtain ⟨-, ⟨slot, found⟩, -⟩ := store_of_isSome changed
    obtain ⟨r, record, there⟩ := Option.bind_eq_some_iff.1 found
    rw [Client.has, sheet_eq, record]
    exact congrArg (fun slot => (slot.map StateSlot.value).isSome) there

/-- What is stored elsewhere does not concern a state. -/
theorem Sheet.values_after_stored {s : Setter} {v : Value} {h : Sheet}
    (elsewhere : ¬ (s.component = id ∧ s.index = i)) :
    (Sheet.after id (.stored s v) h).values i = h.values i := by
  rw [Sheet.after]
  split
  · next own => exact Function.update_of_ne (fun here => elsewhere ⟨own, here.symm⟩) _ _
  · rfl

theorem Sheet.isSome_values_call (h : Sheet) (k : Nat) (call : HookCall) :
    ((h.call k call).values i).isSome
      = (k == i && call.sort == .state || (h.values i).isSome) := by
  by_cases here : i = k
  · subst here
    cases call <;> simp [Sheet.call, HookCall.sort]
  · have other : k ≠ i := Ne.symm here
    cases call <;> simp [Sheet.call, here, other]

/-- A hook of a cell leaves one at its position, whatever it answers. -/
theorem Does.isSome_cells_call {k : Nat} {call : HookCall}
    (did : Does c (.called id k call) c') :
    (((c.sheet id).call k call).cells i).isSome
      = (k == i && call.sort == .cell || ((c.sheet id).cells i).isSome) := by
  by_cases here : i = k
  · subst here
    cases call with
    | cell initial answer =>
      cases there : (c.sheet id).cells i with
      | some n => simp [Sheet.call, HookCall.sort, there]
      | none => simp [Sheet.call, HookCall.sort, there, did.cell_answer.2 there, Except.toOption]
    | state | effect => simp [Sheet.call, HookCall.sort]
  · have other : k ≠ i := Ne.symm here
    cases call <;> simp [Sheet.call, here, other]

/-- The slots of a sort come with the hooks that are called for them, and go with the
    component. -/
theorem Does.has {d : Deed} (did : Does c d c') (numbered : Numbered c) :
    c'.has id sort i = (!d.destroys id && (d.claims id sort i || c.has id sort i)) := by
  have turned := did.sheet numbered id
  cases sort with
  | effect => exact did.hasEffect numbered
  | state =>
    rw [Client.has, turned, Client.has]
    cases d with
    | called other k call =>
      by_cases here : other = id <;>
        simp [Sheet.after, Deed.claims, Deed.destroys, here, Sheet.isSome_values_call]
    | stored s v =>
      by_cases there : s.component = id ∧ s.index = i
      · obtain ⟨rfl, rfl⟩ := there
        have there := did.has_stored
        rw [Client.has] at there
        simp [Sheet.after, Deed.claims, Deed.destroys, there]
      · simp [Sheet.values_after_stored there, Deed.claims, Deed.destroys]
    | began other | forgot other =>
      by_cases here : other = id <;> simp [Sheet.after, Deed.claims, Deed.destroys, here]
    | filled | cleared => simp [Sheet.after, Deed.claims, Deed.destroys]
  | cell =>
    rw [Client.has, turned, Client.has]
    cases d with
    | called other k call =>
      by_cases here : other = id
      · subst here
        simp [Sheet.after, Deed.claims, Deed.destroys, did.isSome_cells_call]
      · simp [Sheet.after, Deed.claims, Deed.destroys, here]
    | stored s v =>
      by_cases own : s.component = id <;> simp [Sheet.after, Deed.claims, Deed.destroys, own]
    | began other | forgot other =>
      by_cases here : other = id <;> simp [Sheet.after, Deed.claims, Deed.destroys, here]
    | filled | cleared => simp [Sheet.after, Deed.claims, Deed.destroys]

/-! ### The slots of a component -/

/-- What happened since the component was forgotten last. -/
def life (id : String) (log : List Deed) : List Deed := log.takeWhile fun d => !d.destroys id

/-- A hook of the sort has claimed the position since the component was forgotten last. -/
def Claimed (id : String) (sort : HookSort) (i : Nat) (log : List Deed) : Prop :=
  ∃ call, call.sort = sort ∧ Deed.called id i call ∈ life id log

theorem life_cons (d : Deed) (log : List Deed) :
    life id (d :: log) = if d.destroys id then [] else d :: life id log := by
  rw [life, List.takeWhile_cons]
  cases d.destroys id <;> rfl

theorem mem_of_mem_life {d : Deed} (there : d ∈ life id log) : d ∈ log :=
  (List.takeWhile_sublist _).subset there

theorem mem_life_of_append {d : Deed} (kept : ∀ d ∈ later, d.destroys id = false)
    (here : d.destroys id = false) : d ∈ life id (later ++ d :: earlier) := by
  rw [life, List.takeWhile_append_of_pos (by simpa using kept), List.takeWhile_cons, here]
  simp

theorem claims_iff {d : Deed} :
    d.claims id sort i ↔ ∃ call, call.sort = sort ∧ d = .called id i call := by
  cases d with
  | called other k call =>
    simp only [Deed.claims, Bool.and_eq_true, beq_iff_eq, Deed.called.injEq]
    constructor
    · rintro ⟨⟨rfl, rfl⟩, same⟩
      exact ⟨call, same, rfl, rfl, rfl⟩
    · rintro ⟨_, same, rfl, rfl, rfl⟩
      exact ⟨⟨rfl, rfl⟩, same⟩
  | _ => simp [Deed.claims]

theorem claimed_cons {d : Deed} :
    Claimed id sort i (d :: log)
      ↔ d.destroys id = false ∧ (d.claims id sort i ∨ Claimed id sort i log) := by
  rw [Claimed, life_cons, claims_iff]
  cases d.destroys id with
  | true => simp
  | false =>
    simp only [Bool.false_eq_true, if_false, List.mem_cons, true_and, Claimed]
    constructor
    · rintro ⟨call, same, rfl | before⟩
      · exact .inl ⟨call, same, rfl⟩
      · exact .inr ⟨call, same, before⟩
    · rintro (⟨call, same, rfl⟩ | ⟨call, same, before⟩)
      · exact ⟨call, same, .inl rfl⟩
      · exact ⟨call, same, .inr before⟩

/-- By induction on the annals: a component has the slots that its hooks have claimed. -/
theorem Annals.has_iff (told : Annals (Client.new document) log c) :
    c.has id sort i ↔ Claimed id sort i log := by
  induction told with
  | refl => cases sort <;> simp [Client.has, Client.hasEffect, Claimed, life] <;> rfl
  | aside _ _ same ih => rw [same.has, ih]
  | deed told did ih =>
    rw [did.has told.chronicle.numbered, claimed_cons, ← ih]
    simp

end PageTree.Live
