/-
  PageTree/Proofs/Live/Subscriptions.lean
  =======================================
  **Listeners stand in the order of their subscription.**

  A component has listeners, and so has every state.  Both kinds take their
  numbers from one counter, so a number is used once.  A list of listeners grows
  at its end only, and what is taken out leaves the rest in order.

    * `Shift.inLine`: the listeners of components stay in order.
    * `Heard`: what most changes do to the listeners of states.
    * `Path.lined`: on every path from a new client all lists are in order.
-/
import PageTree.Proofs.Live.Chronicles
import PageTree.Proofs.Live.Instances

namespace PageTree.Live

variable {P : Callbacks} {α : Type}

/-! ### Numbered lists -/

/-- The numbers of the list ascend, and all are below the bound. -/
structure Ascending (bound : Nat) (ls : List (Nat × α)) : Prop where
  sorted : (ls.map (·.1)).Pairwise (· < ·)
  below : ∀ e ∈ ls, e.1 < bound

namespace Ascending

variable {bound : Nat} {ls : List (Nat × α)}

theorem nil : Ascending bound ([] : List (Nat × α)) := ⟨.nil, fun _ h => nomatch h⟩

theorem of_sublist {bound' : Nat} {ls' : List (Nat × α)} (h : Ascending bound ls)
    (fewer : ls'.Sublist ls) (le : bound ≤ bound') : Ascending bound' ls' := by
  constructor
  · exact h.sorted.sublist (fewer.map _)
  · intro e he
    exact (h.below e (fewer.subset he)).trans_le le

/-- A list grows by what has the next number. -/
theorem append (h : Ascending bound ls) (a : α) : Ascending (bound + 1) (ls ++ [(bound, a)]) := by
  constructor
  · rw [List.map_append, List.pairwise_append]
    refine ⟨h.sorted, List.pairwise_singleton _ _, ?_⟩
    intro n hn m hm
    obtain ⟨e, he, rfl⟩ := List.mem_map.1 hn
    obtain rfl : m = bound := by simpa using hm
    exact h.below e he
  · intro e he
    rcases List.mem_append.1 he with he | he
    · exact (h.below e he).trans (Nat.lt_succ_self _)
    · rw [List.mem_singleton.1 he]
      exact Nat.lt_succ_self _

end Ascending

/-! ### Listeners of components -/

/-- The listeners of every component are in order. -/
def InLine (c : Client P) : Prop := ∀ id, Ascending c.nextListener (c.listenersOf id)

theorem InLine.subscribe {c : Client P} (inLine : InLine c) (id : String) (r : Reaction P) :
    InLine (c.subscribe id r).2 := by
  intro other
  rw [listenersOf_subscribe]
  split
  · exact (inLine other).append r
  · exact (inLine other).of_sublist (.refl _) (Nat.le_succ _)

theorem Shift.inLine {c c' : Client P} (h : Shift c c') (wired : Wired c) (inLine : InLine c) :
    InLine c' := by
  induction h with
  | elsewhere _ _ listeners next =>
    intro id
    rw [Client.listenersOf, listeners]
    exact (inLine id).of_sublist (.refl _) next
  | modify c n => exact inLine
  | subscribe c id r => exact inLine.subscribe id r
  | unsubscribe c id l =>
    intro other
    rw [listenersOf_unsubscribe wired.listenerKeys]
    split
    · exact (inLine other).of_sublist List.filter_sublist le_rfl
    · exact inLine other
  | vacate c id => exact inLine
  | enter c id body => exact inLine.subscribe id (.rerender c.instances.length)
  | unlist c id =>
    intro other
    rw [Client.listenersOf, get?_erase wired.listenerKeys]
    split
    · exact .nil
    · exact inLine other
  | empty c => exact fun _ => .nil
  | trans first _ ih ih' => exact ih' (first.wired wired) (ih wired inLine)

/-! ### Listeners of states -/

/-- The listeners of every state are in order. -/
def StatesInLine (c : Client P) : Prop :=
  ∀ s slot, c.stateSlot? s = some slot → Ascending c.nextListener slot.listeners

/-- A state has no listeners, or they were there before, in the same order. -/
def Heard (c c' : Client P) : Prop :=
  ∀ s slot', c'.stateSlot? s = some slot' → slot'.listeners = [] ∨
    ∃ slot, c.stateSlot? s = some slot ∧ slot'.listeners.Sublist slot.listeners

theorem StatesInLine.of_heard {c c' : Client P} (inLine : StatesInLine c) (heard : Heard c c')
    (next : c.nextListener ≤ c'.nextListener) : StatesInLine c' := by
  intro s slot' found
  rcases heard s slot' found with none | ⟨slot, before, fewer⟩
  · rw [none]
    exact .nil
  · exact (inLine s slot before).of_sublist fewer next

theorem stateSlot?_modifyState (c : Client P) (s t : Setter) (f : StateSlot P → StateSlot P) :
    (c.modifyState s f).stateSlot? t
      = if s.component = t.component ∧ s.index = t.index then (c.stateSlot? t).map f
        else c.stateSlot? t := by
  simp only [Client.modifyState, Client.modifyRecord, Client.stateSlot?, OrderedMap.get?_modify,
    beq_iff_eq]
  by_cases component : s.component = t.component
  · rw [if_pos component]
    cases c.records.get? t.component with
    | none => simp
    | some r =>
      rw [Option.map_some, Option.bind_some, Option.bind_some, Slots.get?_modify]
      simp only [component, true_and]
  · simp only [component, false_and, if_false]

namespace Heard

variable {c c' : Client P}

theorem refl (c : Client P) : Heard c c := fun _ slot found => .inr ⟨slot, found, .refl _⟩

/-- The states of every component are those it had, or it has none. -/
theorem of_states (h : ∀ id r', c'.records.get? id = some r' →
    r'.states = {} ∨ ∃ r, c.records.get? id = some r ∧ r'.states = r.states) : Heard c c' := by
  intro s slot' found
  obtain ⟨r', record, kept⟩ := Option.bind_eq_some_iff.1 found
  rcases h s.component r' record with none | ⟨r, before, same⟩
  · rw [none] at kept
    cases kept
  · refine .inr ⟨slot', ?_, .refl _⟩
    rw [Client.stateSlot?, before, Option.bind_some, ← same, kept]

theorem of_records (h : c'.records = c.records) : Heard c c' :=
  of_states fun _ r' found => .inr ⟨r', h ▸ found, rfl⟩

theorem of_modify {id : String} {f : HookRecord P → HookRecord P}
    (records : c'.records = c.records.modify id f) (states : ∀ r, (f r).states = r.states) :
    Heard c c' := by
  apply of_states
  intro other r' found
  rw [records, OrderedMap.get?_modify] at found
  split at found
  · obtain ⟨r, before, rfl⟩ := Option.map_eq_some_iff.1 found
    exact .inr ⟨r, before, states r⟩
  · exact .inr ⟨r', found, rfl⟩

/-- A component has the states it had after a record of it was put in the place of
    the one it had. -/
theorem of_claimed {id : String} (given : ∀ other, ∃ r : HookRecord P,
    (c'.records.get? other = if id = other then some r else c.records.get? other) ∧
      r.states = (c.recordOf id).states) : Heard c c' := by
  apply of_states
  intro other r' found
  obtain ⟨r, given, states⟩ := given other
  rw [given] at found
  split at found
  · next here =>
    subst here
    obtain rfl := Option.some.inj found
    rw [states]
    cases before : c.records.get? id with
    | none =>
      rw [Client.recordOf, before]
      exact .inl rfl
    | some r₀ =>
      rw [recordOf_of_get? before]
      exact .inr ⟨r₀, rfl, rfl⟩
  · exact .inr ⟨r', found, rfl⟩

theorem useState (c : Client P) (id : String) (v : Value) : Heard c (c.useState id v).2 := by
  intro s slot' found
  obtain ⟨r', record, kept⟩ := Option.bind_eq_some_iff.1 found
  rw [(useState_records c id v).2.2] at record
  split at record
  swap
  · exact refl c s slot' (Option.bind_eq_some_iff.2 ⟨r', record, kept⟩)
  next here =>
  subst here
  obtain rfl := Option.some.inj record
  have before {slot : StateSlot P} {i : Nat}
      (h : (c.recordOf s.component).states.get? i = some slot) (at_i : i = s.index) : c.stateSlot? s = some slot := by
    subst at_i
    cases there : c.records.get? s.component with
    | none =>
      rw [Client.recordOf, there] at h
      cases h
    | some r =>
      rw [recordOf_of_get? there] at h
      rw [Client.stateSlot?, there, Option.bind_some, h]
  rw [HookRecord.withState, HookRecord.putState] at kept
  by_cases here : (c.recordOf s.component).cursor = s.index
  · rw [here, Slots.get?_insert_self] at kept
    obtain rfl := Option.some.inj kept
    -- the state is new and nobody listens, or it was there
    cases there : (c.recordOf s.component).states.get? (c.recordOf s.component).cursor with
    | none =>
      rw [HookRecord.stateHere, there]
      exact .inl rfl
    | some slot =>
      rw [HookRecord.stateHere, there]
      exact .inr ⟨slot, before there here, .refl _⟩
  · rw [Slots.get?_insert_of_ne here] at kept
    exact .inr ⟨slot', before kept rfl, .refl _⟩

theorem useCell (c : Client P) (id : String) (v : Value) : Heard c (c.useCell id v).2 := by
  cases found : (c.recordOf id).cells.get? (c.recordOf id).cursor with
  | some cell =>
    rw [useCell_of_kept v found]
    exact of_claimed fun other => ⟨_, get?_claim c id other, rfl⟩
  | none => exact of_claimed fun other => ⟨_, (useCell_of_none other v found).2.2, rfl⟩

theorem useEffect (c : Client P) (id : String) (deps : Option Deps) (e : P.Effect) :
    Heard c (c.useEffect id deps e) := by
  apply of_claimed
  intro other
  obtain ⟨_, given⟩ := useEffect_records c id other deps e
  exact ⟨_, given, rfl⟩

/-- Of one state the listeners change, in a way that leaves them in order. -/
theorem of_modifyState {s : Setter} {f : StateSlot P → StateSlot P}
    (fewer : ∀ slot, (f slot).listeners.Sublist slot.listeners) :
    Heard c (c.modifyState s f) := by
  intro t slot' found
  rw [stateSlot?_modifyState] at found
  split at found
  · obtain ⟨slot, before, rfl⟩ := Option.map_eq_some_iff.1 found
    exact .inr ⟨slot, before, fewer slot⟩
  · exact refl c t slot' found

theorem store (c : Client P) (s : Setter) (v : Value) : Heard c (c.store s v).2 := by
  cases changed : (c.store s v).1.isSome with
  | false =>
    rw [store_of_isNone changed]
    exact refl c
  | true =>
    rw [(store_of_isSome changed).2.2]
    exact of_modifyState fun _ => .refl _

end Heard

/-- Whoever begins to listen to a state has the next number. -/
theorem StatesInLine.listen {c : Client P} (inLine : StatesInLine c) (s : Setter)
    (l : P.Listener) : StatesInLine (c.listen s l).2 := by
  intro t slot' found
  have found : (({ c with nextListener := c.nextListener + 1 } : Client P).modifyState s
      fun slot => { slot with listeners := slot.listeners ++ [(c.nextListener, l)] }).stateSlot? t
        = some slot' := found
  rw [stateSlot?_modifyState] at found
  split at found
  · obtain ⟨slot, before, rfl⟩ := Option.map_eq_some_iff.1 found
    exact (inLine t slot before).append l
  · exact (inLine t slot' found).of_sublist (.refl _) (Nat.le_succ _)

/-- A small change leaves the listeners of states alone, or somebody begins to
    listen to one. -/
theorem Change.heard {c c' : Client P} (h : Change c c') :
    Heard c c' ∨ ∃ s l, c' = (c.listen s l).2 := by
  cases h with
  | listen s l => exact .inr ⟨s, l, rfl⟩
  | unlisten s n => exact .inl (.of_modifyState fun _ => List.filter_sublist)
  | store s v => exact .inl (.store c s v)
  | useState id v => exact .inl (.useState c id v)
  | useCell id v => exact .inl (.useCell c id v)
  | useEffect id deps e => exact .inl (.useEffect c id deps e)
  | writeCell r v =>
    unfold Client.writeCell
    split <;> exact .inl (.of_records rfl)
  | writeContext h v =>
    unfold Client.writeContext
    split
    · exact .inl (.refl c)
    · split <;> exact .inl (.of_records rfl)
  | findRoute id path =>
    unfold Client.findRoute
    split <;> exact .inl (.of_records rfl)
  | beginRender n =>
    rcases beginRender_eq c n with same | begun
    · rw [same]
      exact .inl (.refl c)
    · rw [begun]
      exact .inl (.of_records rfl)
  | endSubscription n =>
    rcases endSubscription_eq c n with same | ⟨i, l, _, _, ended⟩
    · rw [same]
      exact .inl (.refl c)
    · rw [ended]
      exact .inl (.of_records rfl)
  | _ => exact .inl (.of_records rfl)

theorem Take.heard {take : Client P → List (Due P) × Client P} (h : Take take) {c : Client P}
    (numbered : Numbered c) : Heard c (take c).2 := by
  cases h with
  | takeCleanup e => exact .of_modify rfl fun _ => rfl
  | settleEffect e k =>
    simp only [Client.settleEffect]
    split
    · exact .of_modify rfl fun _ => rfl
    · exact .of_records rfl
  | forget id =>
    apply Heard.of_states
    intro other r' found
    have found : (c.records.erase id).get? other = some r' := found
    rw [get?_erase numbered.nodup_keys] at found
    split at found
    · cases found
    · exact .inr ⟨r', found, rfl⟩
  | detach n i => exact .of_modify (detach_eq c n i).2.1 fun _ => rfl
  | clear =>
    apply Heard.of_states
    intro other r' found
    cases found

/-! ### On every path -/

/-- All listeners are in order. -/
structure Lined (c : Client P) : Prop where
  components : InLine c
  states : StatesInLine c

/-- On every path from a new client the listeners of components and of states
    stand in the order of their subscription, each number once. -/
theorem Path.lined {document : Document} {c : Client P} (h : Path (Client.new document) c) :
    Lined c := by
  refine ⟨h.shift.inLine (wired_new document) fun _ => .nil, ?_⟩
  -- the counter never goes back
  have later {c c' : Client P} (before : Path (Client.new document) c) (step : Path c c') :
      c.nextListener ≤ c'.nextListener :=
    (step.renews (before.wired (wired_new document))).next
  induction h with
  | refl => exact fun _ _ found => nomatch found
  | change way step ih =>
    rcases step.heard with heard | ⟨s, l, rfl⟩
    · exact ih.of_heard heard (later way (.change (.refl _) step))
    · exact ih.listen s l
  | beginPass _ id ih => exact ih.of_heard (.of_modify rfl fun _ => rfl) le_rfl
  | endPass _ previous ih => exact ih
  | take way taken ih =>
    exact ih.of_heard (taken.heard way.numbered) (later way (.take (.refl _) taken))
  | note _ e ih => exact ih
  | settle way ih =>
    unfold Client.settle
    split
    · exact fun _ _ found => nomatch found
    · exact ih

end PageTree.Live
