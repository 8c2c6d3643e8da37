/-
  PageTree/Proofs/Live/Positions.lean
  ===================================
  **Hooks are told apart by their positions.**

  The hooks of a component claim one position after another, from the first one on
  in every pass, whatever passes of other components are nested and however they
  end.  A component that calls the same hooks in every pass therefore finds at each
  position what it left there: the value stored last, and the cell.

    * `Chronicle.sheet`: the slots are what the log says;
    * `position_of_begun`: a position is the number of calls since the pass began;
    * `state_answered`, `cell_answered`: what hooks answer that are called in order;
    * `hooks_keep_positions`: all of it, along every chronicle.
-/
import PageTree.Proofs.Live.Chronicles

namespace PageTree.Live

variable {P : Callbacks} {μ : Type} {document : Document} {c c' : Client P}
  {log during earlier : List Deed} {id : String} {i : Nat}

theorem Chronicle.numbered (told : Chronicle (Client.new document) log c) : Numbered c :=
  told.path.numbered

/-- By induction on the chronicle: every deed does what it says, and of the other
    steps nothing shows. -/
theorem Chronicle.sheet (told : Chronicle (Client.new document) log c) (id : String) :
    c.sheet id = Live.sheet id log := by
  induction told with
  | refl => rfl
  | deed told did ih => exact (did.sheet told.numbered id).trans (congrArg _ ih)
  | aside _ _ same ih => exact (same.sheet id).trans ih

/-! ### What a deed does to a sheet -/

/-- What a deed makes of the sheet of a component. -/
inductive Sheet.Turns (id : String) (h : Sheet) : Deed → Sheet → Prop
  | stays {d : Deed} (other : d.calls id = false) : Sheet.Turns id h d h
  | begins : Sheet.Turns id h (.began id) { h with position := 0 }
  | calls (i : Nat) (call : HookCall) : Sheet.Turns id h (.called id i call) (h.call i call)
  | stores {s : Setter} (v : Value) (own : s.component = id) : Sheet.Turns id h (.stored s v)
      { h with values := Function.update h.values s.index (some v) }
  | goes {d : Deed} (gone : d.destroys id = true) : Sheet.Turns id h d {}

theorem Sheet.turns_after (id : String) (d : Deed) (h : Sheet) :
    Sheet.Turns id h d (Sheet.after id d h) := by
  cases d with
  | began other =>
    rw [Sheet.after]
    split
    · next here => exact here ▸ .begins
    · exact .stays rfl
  | called other i call =>
    rw [Sheet.after]
    split
    · next here => exact here ▸ .calls i call
    · next there => exact .stays (by simpa [Deed.calls] using there)
  | stored s v =>
    rw [Sheet.after]
    split
    · next own => exact .stores v own
    · exact .stays rfl
  | filled r v => exact .stays rfl
  | forgot other =>
    rw [Sheet.after]
    split
    · next here => exact .goes (by simpa [Deed.destroys] using here)
    · exact .stays rfl
  | cleared => exact .goes rfl

/-! ### Positions -/

theorem Deed.restarts_of_destroys {d : Deed} (gone : d.destroys id = true) :
    d.restarts id = true := by
  cases d with
  | forgot | cleared => exact gone
  | _ => cases gone

theorem Sheet.position_after {d : Deed} (undisturbed : ¬ d.restarts id) (h : Sheet) :
    (Sheet.after id d h).position = h.position + if d.calls id then 1 else 0 := by
  have turned := Sheet.turns_after id d h
  generalize Sheet.after id d h = h' at turned ⊢
  cases turned with
  | stays other => simp [other]
  | begins => exact absurd (by simp [Deed.restarts]) undisturbed
  | calls i call => cases call <;> simp [Sheet.call, Deed.calls]
  | stores => simp [Deed.calls]
  | goes gone => exact absurd (Deed.restarts_of_destroys gone) undisturbed

/-- The next position is the number of calls since the pass began. -/
theorem position_of_begun (undisturbed : ∀ d ∈ during, ¬ d.restarts id) :
    (sheet id (during ++ .began id :: earlier)).position = during.countP (·.calls id) := by
  induction during with
  | nil => simp [sheet, Sheet.after]
  | cons d during ih =>
    have rest := ih fun d' there => undisturbed d' (List.mem_cons_of_mem _ there)
    have step := Sheet.position_after (undisturbed d (List.mem_cons_self ..))
      (sheet id (during ++ .began id :: earlier))
    rw [List.countP_cons, ← rest]
    exact step

theorem Does.claims {call : HookCall} (did : Does c (.called id i call) c') :
    i = (c.sheet id).position := by
  cases did <;> rfl

/-! ### What hooks were given before -/

/-- Nobody makes setters and cells up: what a value is stored through, and what is
    filled, was the answer of a hook. -/
def HandedOut : List Deed → Prop
  | [] => True
  | .stored s _ :: log =>
    (∃ id i initial x, .called id i (.state initial (.ok (x, s))) ∈ log) ∧ HandedOut log
  | .filled r _ :: log =>
    (∃ id i initial, .called id i (.cell initial (.ok r)) ∈ log) ∧ HandedOut log
  | _ :: log => HandedOut log

theorem HandedOut.tail {d : Deed} (h : HandedOut (d :: log)) : HandedOut log := by
  cases d with
  | stored | filled => exact h.2
  | _ => exact h

theorem HandedOut.of_append (h : HandedOut (during ++ log)) : HandedOut log := by
  induction during with
  | nil => exact h
  | cons d during ih => exact ih h.tail

/-- The component calls the same hooks in every pass: a call that claims a position
    is of the kind of the position. -/
def InOrder (id : String) (kinds : Nat → HookKind) (log : List Deed) : Prop :=
  ∀ i call, .called id i call ∈ log → call.kind = kinds i

theorem InOrder.tail {kinds : Nat → HookKind} {d : Deed} (h : InOrder id kinds (d :: log)) :
    InOrder id kinds log :=
  fun i call there => h i call (List.mem_cons_of_mem d there)

theorem InOrder.of_append {kinds : Nat → HookKind} (h : InOrder id kinds (during ++ log)) :
    InOrder id kinds log :=
  fun i call there => h i call (List.mem_append_right _ there)

/-! ### States -/

theorem Does.state_answer {initial : Value} {answer : Except Fault (Value × Setter)}
    (did : Does c (.called id i (.state initial answer)) c') :
    answer = handState id i initial (((c.sheet id).values i).getD initial) := by
  cases did with
  | useState => exact congrArg Prod.fst (useState_eq c id initial)

/-- A setter carries the component, the position and the kind of the state it was
    given out for. -/
theorem Chronicle.setter_eq {initial x : Value} {s : Setter} (told : Chronicle c log c')
    (given : .called id i (.state initial (.ok (x, s))) ∈ log) : s = ⟨id, i, initial.kind⟩ := by
  obtain ⟨later, earlier, rfl⟩ := List.append_of_mem given
  obtain ⟨c₁, c₂, _, did, _⟩ := told.split
  have answer := did.state_answer
  unfold handState at answer
  split at answer
  · exact (Prod.mk.inj (Except.ok.inj answer)).2
  · cases answer

theorem Does.stored_kind {s : Setter} {v : Value} (did : Does c (.stored s v) c') :
    v.kind = s.kind := by
  cases did with
  | stores changed => exact (store_of_isSome changed).1

/-- A value was there before, or the deed made it, or stored it. -/
theorem Sheet.values_after {d : Deed} {h : Sheet} {v : Value}
    (value : (Sheet.after id d h).values i = some v) :
    h.values i = some v ∨ (∃ answer, d = .called id i (.state v answer)) ∨
      ∃ s, d = .stored s v ∧ s.component = id ∧ s.index = i := by
  have turned := Sheet.turns_after id d h
  generalize Sheet.after id d h = h' at turned value
  cases turned with
  | stays | begins => exact .inl value
  | calls k call =>
    cases call with
    | state initial answer =>
      simp only [Sheet.call, Function.update_apply] at value
      split at value
      · next here =>
        subst here
        cases made : h.values i with
        | none =>
          rw [made] at value
          obtain rfl := Option.some.inj value
          exact .inr (.inl ⟨answer, rfl⟩)
        | some u =>
          rw [made] at value
          exact .inl value
      · exact .inl value
    | cell | effect => exact .inl value
  | @stores s u own =>
    simp only [Function.update_apply] at value
    split at value
    · next here =>
      obtain rfl := Option.some.inj value
      exact .inr (.inr ⟨s, rfl, own, here.symm⟩)
    · exact .inl value
  | goes => cases value

/-- By induction on the chronicle: values are made and stored with the kind of their
    position. -/
theorem value_kind {kinds : Nat → HookKind} (told : Chronicle (Client.new document) log c)
    (handed : HandedOut log) (order : InOrder id kinds log) {v : Value}
    (value : (sheet id log).values i = some v) : kinds i = .state v.kind := by
  induction told with
  | refl => cases value
  | aside _ _ _ ih => exact ih handed order value
  | deed told did ih =>
    rcases Sheet.values_after value with before | ⟨answer, rfl⟩ | ⟨s, rfl, rfl, rfl⟩
    · exact ih handed.tail order.tail before
    · exact (order i _ (List.mem_cons_self ..)).symm
    · -- the setter was given out for the position, by a hook of its kind
      obtain ⟨⟨other, k, initial, x, given⟩, _⟩ := handed
      obtain rfl := told.setter_eq given
      rw [did.stored_kind]
      exact (order k _ (List.mem_cons_of_mem _ given)).symm

/-- A hook that is called in order finds the value of its position, or makes it. -/
theorem state_answered {kinds : Nat → HookKind} {initial : Value}
    {answer : Except Fault (Value × Setter)} (told : Chronicle (Client.new document) log c)
    (did : Does c (.called id i (.state initial answer)) c') (handed : HandedOut log)
    (order : InOrder id kinds (.called id i (.state initial answer) :: log)) :
    answer = .ok (((sheet id log).values i).getD initial, ⟨id, i, initial.kind⟩) := by
  have kind : HookKind.state initial.kind = kinds i := order i _ (List.mem_cons_self ..)
  have same : (((sheet id log).values i).getD initial).kind = initial.kind := by
    cases value : (sheet id log).values i with
    | none => rfl
    | some v =>
      exact HookKind.state.inj ((value_kind told handed order.tail value).symm.trans kind.symm)
  rw [did.state_answer, told.sheet, handState, if_pos same]

/-! ### Cells -/

/-- A cell was there before, or it is the answer of the hook that was called. -/
theorem Sheet.cells_after {d : Deed} {h : Sheet} {n : Nat}
    (there : (Sheet.after id d h).cells i = some n) :
    h.cells i = some n ∨ ∃ initial r, d = .called id i (.cell initial (.ok r)) ∧ r.cell = n := by
  have turned := Sheet.turns_after id d h
  generalize Sheet.after id d h = h' at turned there
  cases turned with
  | stays | begins | stores => exact .inl there
  | calls k call =>
    cases call with
    | cell initial answer =>
      simp only [Sheet.call, Function.update_apply] at there
      split at there
      · next here =>
        subst here
        rcases Option.or_eq_some_iff.1 there with before | ⟨_, given⟩
        · exact .inl before
        · obtain ⟨r, ok, rfl⟩ := Option.map_eq_some_iff.1 given
          obtain rfl := eq_ok_of_toOption ok
          exact .inr ⟨initial, r, rfl, rfl⟩
      · exact .inl there
    | state | effect => exact .inl there
  | goes => cases there

/-- Every cell on a sheet was the answer of a hook. -/
theorem exists_of_cells {n : Nat} (there : (sheet id log).cells i = some n) :
    ∃ initial r, .called id i (.cell initial (.ok r)) ∈ log ∧ r.cell = n := by
  induction log with
  | nil => cases there
  | cons d log ih =>
    rcases Sheet.cells_after there with before | ⟨initial, r, rfl, same⟩
    · obtain ⟨initial, r, given, same⟩ := ih before
      exact ⟨initial, r, List.mem_cons_of_mem _ given, same⟩
    · exact ⟨initial, r, List.mem_cons_self .., same⟩

/-- A cell stays at its position until the component is forgotten. -/
theorem Sheet.cells_kept {d : Deed} {h : Sheet} {n : Nat} (kept : ¬ d.destroys id)
    (there : h.cells i = some n) : (Sheet.after id d h).cells i = some n := by
  have turned := Sheet.turns_after id d h
  generalize Sheet.after id d h = h' at turned ⊢
  cases turned with
  | stays | begins | stores => exact there
  | calls k call =>
    cases call with
    | cell initial answer =>
      simp only [Sheet.call, Function.update_apply]
      split
      · next here =>
        subst here
        rw [there, Option.some_or]
      · exact there
    | state | effect => exact there
  | goes gone => exact absurd gone kept

theorem cells_kept {n : Nat} (kept : ∀ d ∈ during, ¬ d.destroys id)
    (there : (sheet id earlier).cells i = some n) :
    (sheet id (during ++ earlier)).cells i = some n := by
  induction during with
  | nil => exact there
  | cons d during ih =>
    exact Sheet.cells_kept (kept d (List.mem_cons_self ..))
      (ih fun d' inside => kept d' (List.mem_cons_of_mem _ inside))

/-- The cells that hooks gave out are there, with contents of their kinds. -/
def KeepsCells (log : List Deed) (c : Client P) : Prop :=
  ∀ id i initial r, .called id i (.cell initial (.ok r)) ∈ log →
    r.kind = initial.kind ∧ r.cell < c.cells.length ∧ (c.cellValue r.cell).kind = r.kind

namespace KeepsCells

theorem of_cells (keeps : KeepsCells log c) (same : c'.cells = c.cells) : KeepsCells log c' := by
  intro id i initial r given
  rw [Client.cellValue, same]
  exact keeps id i initial r given

/-- A deed that no cell is the answer of gives none out. -/
theorem cons {d : Deed} (keeps : KeepsCells log c)
    (other : ∀ id i initial r, d ≠ .called id i (.cell initial (.ok r))) :
    KeepsCells (d :: log) c := by
  intro id i initial r given
  rcases List.mem_cons.1 given with rfl | before
  · exact absurd rfl (other id i initial r)
  · exact keeps id i initial r before

theorem writeCell (keeps : KeepsCells log c) {r : CellRef} {v : Value} (kind : v.kind = r.kind)
    (handed : ∃ id i initial, .called id i (.cell initial (.ok r)) ∈ log) :
    KeepsCells log (c.writeCell r v) := by
  obtain ⟨other, k, first, given⟩ := handed
  obtain ⟨_, _, held⟩ := keeps other k first r given
  intro id i initial r' given'
  obtain ⟨named, inside, held'⟩ := keeps id i initial r' given'
  rw [Client.writeCell, if_pos kind]
  refine ⟨named, by simpa using inside, ?_⟩
  by_cases same : r.cell = r'.cell
  · -- both refer to one cell, so they are of one kind
    have written : ({ c with cells := c.cells.set r.cell v } : Client P).cellValue r'.cell = v := by
      simp [Client.cellValue, same, inside]
    rw [written, kind, ← held, same, held']
  · simpa [Client.cellValue, List.getD_eq_getElem?_getD, List.getElem?_set, same] using held'

/-- A hook gives out the cell of its position, or a new one. -/
theorem useCell (keeps : KeepsCells log c) (v : Value)
    (cells : ∀ n, (c.sheet id).cells (c.claim id).1 = some n →
      ∃ initial r, .called id (c.claim id).1 (.cell initial (.ok r)) ∈ log ∧ r.cell = n) :
    KeepsCells (.called id (c.claim id).1 (.cell v (c.useCell id v).1) :: log)
      (c.useCell id v).2 := by
  intro id' i initial r given
  cases found : (c.recordOf id).cells.get? (c.recordOf id).cursor with
  | some n =>
    obtain ⟨first, r', before, same⟩ := cells n found
    obtain ⟨_, inside, _⟩ := keeps _ _ first r' before
    rw [useCell_of_kept v found] at given ⊢
    rcases List.mem_cons.1 given with now | earlier
    · obtain ⟨rfl, rfl, call⟩ := Deed.called.inj now
      obtain ⟨rfl, answer⟩ := HookCall.cell.inj call
      split at answer
      · next held =>
        obtain rfl := Except.ok.inj answer
        exact ⟨rfl, same ▸ inside, held⟩
      · cases answer
    · exact keeps id' i initial r earlier
  | none =>
    obtain ⟨answer, made, _⟩ := useCell_of_none id v found
    rw [answer] at given
    rw [Client.cellValue, made]
    rcases List.mem_cons.1 given with now | earlier
    · obtain ⟨rfl, rfl, call⟩ := Deed.called.inj now
      obtain ⟨rfl, given⟩ := HookCall.cell.inj call
      obtain rfl := Except.ok.inj given
      simp
    · obtain ⟨named, inside, held⟩ := keeps id' i initial r earlier
      refine ⟨named, by simp; omega, ?_⟩
      rw [List.getD_append _ _ _ _ inside]
      exact held

end KeepsCells

/-- Only hooks make cells, and only filling changes what is in them. -/
theorem Does.cells_eq {d : Deed} (did : Does c d c')
    (uncalled : ∀ id i v answer, d ≠ .called id i (.cell v answer))
    (unfilled : ∀ r v, d ≠ .filled r v) : c'.cells = c.cells := by
  cases did with
  | useCell id v => exact absurd rfl (uncalled id _ v _)
  | fills => exact absurd rfl (unfilled _ _)
  | useState id v => rw [(useState_records _ id v).1]
  | useEffect id deps e =>
    unfold Client.useEffect
    dsimp only
    split <;> rfl
  | stores changed =>
    rw [(store_of_isSome changed).2.2]
    rfl
  | releases given_up => rw [Client.settle, if_pos given_up, Client.release]
  | _ => rfl

/-- By induction on the chronicle: only cells that were given out are filled. -/
theorem Chronicle.keepsCells (told : Chronicle (Client.new document) log c)
    (handed : HandedOut log) : KeepsCells log c := by
  induction told with
  | refl =>
    intro id i initial r given
    cases given
  | aside _ _ same ih => exact (ih handed).of_cells same.cells
  | deed told did ih =>
    have before := ih handed.tail
    have others := did.cells_eq
    cases did with
    | useCell id v =>
      refine before.useCell v fun n there => ?_
      rw [told.sheet] at there
      exact exists_of_cells there
    | fills kind => exact (before.writeCell kind handed.1).cons (by simp)
    | _ => exact (before.of_cells (others (by simp) (by simp))).cons (by simp)

theorem Does.cell_answer {initial : Value} {answer : Except Fault CellRef}
    (did : Does c (.called id i (.cell initial answer)) c') :
    (∀ n, (c.sheet id).cells i = some n → answer =
        if (c.cellValue n).kind = initial.kind then .ok ⟨n, initial.kind⟩
        else .error (.hookChanged id i)) ∧
      ((c.sheet id).cells i = none → answer = .ok ⟨c.cells.length, initial.kind⟩) := by
  cases did with
  | useCell =>
    constructor
    · intro n there
      rw [useCell_of_kept initial there]
      rfl
    · intro unmade
      exact (useCell_of_none id initial unmade).1

/-- A hook that is called in order finds the cell of its position, or makes it. -/
theorem cell_answered {kinds : Nat → HookKind} {initial : Value} {answer : Except Fault CellRef}
    (told : Chronicle (Client.new document) log c)
    (did : Does c (.called id i (.cell initial answer)) c') (handed : HandedOut log)
    (order : InOrder id kinds (.called id i (.cell initial answer) :: log)) :
    ∃ n, answer = .ok ⟨n, initial.kind⟩ ∧ ∀ m, (sheet id log).cells i = some m → n = m := by
  have kind : HookKind.cell initial.kind = kinds i := order i _ (List.mem_cons_self ..)
  obtain ⟨kept, made⟩ := did.cell_answer
  rw [told.sheet] at kept made
  cases there : (sheet id log).cells i with
  | none => exact ⟨_, made there, nofun⟩
  | some n =>
    obtain ⟨first, r, given, rfl⟩ := exists_of_cells there
    obtain ⟨named, _, held⟩ := told.keepsCells handed id i first r given
    have before : HookKind.cell first.kind = kinds i := order.tail i _ given
    have same : first.kind = initial.kind := HookKind.cell.inj (before.trans kind.symm)
    refine ⟨r.cell, ?_, fun m found => Option.some.inj found⟩
    rw [kept r.cell there, if_pos (held.trans (named.trans same))]

theorem Sheet.cells_of_answer {h : Sheet} {initial : Value} {r : CellRef}
    (found : ∀ m, h.cells i = some m → r.cell = m) :
    (Sheet.after id (.called id i (.cell initial (.ok r))) h).cells i = some r.cell := by
  rw [Sheet.after, if_pos rfl]
  simp only [Sheet.call, Function.update_self]
  cases there : h.cells i with
  | none => rfl
  | some m => rw [found m there, Option.some_or]

/-- Two hooks that are called in order at one position answer with one cell, if the
    component was not forgotten in between. -/
theorem same_cell {kinds : Nat → HookKind} {initial first : Value}
    {answer given : Except Fault CellRef}
    (told : Chronicle (Client.new document)
      (during ++ .called id i (.cell first given) :: earlier) c)
    (did : Does c (.called id i (.cell initial answer)) c')
    (handed : HandedOut (during ++ .called id i (.cell first given) :: earlier))
    (order : InOrder id kinds (.called id i (.cell initial answer) ::
      (during ++ .called id i (.cell first given) :: earlier)))
    (kept : ∀ d ∈ during, ¬ d.destroys id) : (∃ r, answer = .ok r) ∧ answer = given := by
  obtain ⟨c₁, c₂, before, did', _⟩ := told.split
  obtain ⟨n, rfl, found⟩ :=
    cell_answered before did' handed.of_append.tail order.tail.of_append
  obtain ⟨n', rfl, found'⟩ := cell_answered told did handed order
  have there : (sheet id (during ++ .called id i (.cell first (.ok ⟨n, first.kind⟩)) ::
      earlier)).cells i = some n :=
    cells_kept kept (Sheet.cells_of_answer found)
  have kind : initial.kind = first.kind := by
    have now := order i _ (List.mem_cons_self ..)
    have before := order.tail.of_append i _ (List.mem_cons_self ..)
    exact HookKind.cell.inj (now.trans before.symm)
  rw [found' n there, kind]
  exact ⟨⟨_, rfl⟩, rfl⟩

/-! ### Setters -/

/-- Of all slots only that of the setter is another one, and nothing else changed. -/
structure Overwrites (s : Setter) (c c' : Client P) : Prop where
  rest : c' = { c with records := c'.records }
  keys : c'.records.keys = c.records.keys
  others : ∀ id, id ≠ s.component → c'.records.get? id = c.records.get? id
  own : ∀ r, c.records.get? s.component = some r → ∃ states,
    c'.records.get? s.component = some { r with states } ∧
      ∀ i, i ≠ s.index → states.get? i = r.states.get? i

theorem overwrites_store (c : Client P) (s : Setter) (v : Value) :
    Overwrites s c (c.store s v).2 := by
  have unchanged : Overwrites s c c :=
    ⟨rfl, rfl, fun _ _ => rfl, fun r found => ⟨r.states, found, fun _ _ => rfl⟩⟩
  cases stored : (c.store s v).1.isSome with
  | false => rwa [store_of_isNone stored]
  | true =>
    rw [(store_of_isSome stored).2.2]
    refine ⟨rfl, OrderedMap.keys_modify _ _ _, ?_, ?_⟩
    · intro id ne
      rw [Client.modifyState, Client.modifyRecord, OrderedMap.get?_modify,
        if_neg (by simpa using ne.symm)]
    · intro r found
      refine ⟨r.states.modify s.index fun slot => { slot with value := v }, ?_, ?_⟩
      · simp [Client.modifyState, Client.modifyRecord, OrderedMap.get?_modify, found]
      · intro i ne
        rw [Slots.get?_modify, if_neg ne.symm]

/-! ### Requests and passes -/

/-- The hook that a request calls, given what it was answered, and whether it is
    called for whoever is being rendered. -/
def Request.hookCall : {β : Type} → Request P β → β → Option (Bool × HookCall)
  | _, .useState ambient v, answer => some (ambient, .state v answer)
  | _, .useCell ambient v, answer => some (ambient, .cell v answer)
  | _, .useEffect ambient _ _, _ => some (ambient, .effect)
  | _, _, _ => none

/-- A request that calls a hook for a component does just that. -/
theorem does_of_served {calls : Calls P μ} {scope : Option String} {β : Type} {r : Request P β}
    {answer : β} {ambient : Bool} {call : HookCall} {w w' : World P μ}
    (hook : r.hookCall answer = some (ambient, call))
    (target : Calls.hookTarget scope ambient w.client = some id)
    (served : calls.serve scope r w = some (answer, w')) :
    Does w.client (.called id (w.client.claim id).1 call) w'.client := by
  cases r with
  | useState _ v =>
    obtain ⟨rfl, rfl⟩ := Prod.mk.inj (Option.some.inj hook)
    have called := hook_of_target target "use_state" fun id c => c.useState id v
    obtain ⟨rfl, rfl⟩ := Prod.mk.inj (Option.some.inj (called.symm.trans served))
    exact .useState _ id v
  | useCell _ v =>
    obtain ⟨rfl, rfl⟩ := Prod.mk.inj (Option.some.inj hook)
    have called := hook_of_target target "use_ref" fun id c => c.useCell id v
    obtain ⟨rfl, rfl⟩ := Prod.mk.inj (Option.some.inj (called.symm.trans served))
    exact .useCell _ id v
  | useEffect _ deps e =>
    obtain ⟨rfl, rfl⟩ := Prod.mk.inj (Option.some.inj hook)
    have called := hook_of_target target "use_effect" fun id c => (.ok (), c.useEffect id deps e)
    obtain ⟨_, rfl⟩ := Prod.mk.inj (Option.some.inj (called.symm.trans served))
    exact .useEffect _ id deps e
  | _ => cases hook

/-- A pass is told from its beginning on, and gives way to the component that was
    being rendered. -/
theorem Chronicle.runPass {c₀ : Client P} {w w' : World P μ} (told : Chronicle c₀ log w.client)
    {p : Program P μ} {depth : Nat} {body : P.Body} {result : Except Fault String}
    (ran : (p.invoke depth).runPass id body w = some (result, w')) :
    ∃ during, Chronicle c₀ (during ++ .began id :: log) w'.client ∧
      w'.client.current = w.client.current := by
  obtain ⟨w₁, rendered, rfl⟩ := Calls.runPass_eq_some ran
  have way : Path (w.client.beginPass id).2 w₁.client :=
    (pathLaw.moves_invoke p depth).render id body _ _ _ rendered
  obtain ⟨during, meanwhile⟩ := way.chronicle
  have begun : Chronicle c₀ (.began id :: log) (w.client.beginPass id).2 :=
    .deed told (.begins w.client id)
  refine ⟨during, ?_, rfl⟩
  exact .aside (begun.trans meanwhile) (.endPass _ w.client.current) (.of_records rfl rfl)

/-- Whatever the client has done, its chronicle goes on with every run and with every
    pass of a component, and a hook that is called for a component, by its body or for
    whoever is being rendered, claims the next position.

    The position is the number of calls for the component since the pass began, if the
    component was neither forgotten nor has begun another pass: passes of other
    components, and how they end, do not count.  If the component calls the same hooks
    in every pass, and setters and cells are only those that hooks gave out, the hook of
    a state answers with the value stored last, at first with its initial value, and the
    hook of a cell with the same cell as long as the component is not forgotten.
    Storing a value concerns no slot but that of the setter. -/
theorem hooks_keep_positions {document : Document} {log : List Deed} {c : Client P}
    (told : Chronicle (Client.new document) log c) (id : String) :
    (∀ {μ α : Type} (p : Program P μ) (depth : Nat) (m : Routine P μ α) (memory : μ) (a : α)
        (w' : World P μ), p.run depth m ⟨c, memory⟩ = some (a, w') →
      ∃ later, Chronicle (Client.new document) (later ++ log) w'.client) ∧
    (∀ {μ : Type} (p : Program P μ) (depth : Nat) (body : P.Body) (memory : μ)
        (result : Except Fault String) (w' : World P μ),
      (p.invoke depth).runPass id body ⟨c, memory⟩ = some (result, w') →
      ∃ during, Chronicle (Client.new document) (during ++ .began id :: log) w'.client ∧
        w'.client.current = c.current) ∧
    (∀ {μ β : Type} (calls : Calls P μ) (scope : Option String) (r : Request P β) (answer : β)
        (ambient : Bool) (call : HookCall) (memory : μ) (w' : World P μ),
      r.hookCall answer = some (ambient, call) → Calls.hookTarget scope ambient c = some id →
      calls.serve scope r ⟨c, memory⟩ = some (answer, w') →
      Chronicle (Client.new document) (.called id (sheet id log).position call :: log)
        w'.client) ∧
    (∀ (later during earlier : List Deed) (i : Nat) (call : HookCall),
      log = later ++ Deed.called id i call :: (during ++ Deed.began id :: earlier) →
      (∀ d ∈ during, ¬ d.restarts id) → i = during.countP fun d => d.calls id) ∧
    (∀ kinds : Nat → HookKind, HandedOut log → InOrder id kinds log →
      (∀ (later earlier : List Deed) (i : Nat) (initial : Value)
          (answer : Except Fault (Value × Setter)),
        log = later ++ Deed.called id i (.state initial answer) :: earlier →
        answer = .ok (((sheet id earlier).values i).getD initial, ⟨id, i, initial.kind⟩)) ∧
      ∀ (later during earlier : List Deed) (i : Nat) (initial first : Value)
          (answer given : Except Fault CellRef),
        log = later ++ Deed.called id i (.cell initial answer) ::
          (during ++ Deed.called id i (.cell first given) :: earlier) →
        (∀ d ∈ during, ¬ d.destroys id) → (∃ r, answer = .ok r) ∧ answer = given) ∧
    ∀ (s : Setter) (v : Value), Overwrites s c (c.store s v).2 := by
  refine ⟨?_, ?_, ?_, ?_, ?_, overwrites_store c⟩
  · intro μ α p depth m memory a w' ran
    obtain ⟨later, meanwhile⟩ := (Path.of_run ran).chronicle
    exact ⟨later, told.trans meanwhile⟩
  · intro μ p depth body memory result w' ran
    exact Chronicle.runPass (w := ⟨c, memory⟩) told ran
  · intro μ β calls scope r answer ambient call memory w' hook target served
    have did := does_of_served hook target served
    have position : (c.claim id).1 = (sheet id log).position := by
      rw [← told.sheet]
      rfl
    exact .deed told (position ▸ did)
  · intro later during earlier i call whole undisturbed
    subst whole
    obtain ⟨c₁, c₂, before, did, _⟩ := told.split
    rw [did.claims, before.sheet, position_of_begun undisturbed]
  · intro kinds handed order
    constructor
    · intro later earlier i initial answer whole
      subst whole
      obtain ⟨c₁, c₂, before, did, _⟩ := told.split
      exact state_answered before did handed.of_append.tail order.of_append
    · intro later during earlier i initial first answer given whole kept
      subst whole
      obtain ⟨c₁, c₂, before, did, _⟩ := told.split
      exact same_cell before did handed.of_append.tail order.of_append kept

/-! ### Two passes with another one nested -/

abbrev countedBodies : Callbacks where
  Body := Empty
  Effect := Empty
  Cleanup := Empty
  Listener := Empty
  View := Empty

def uncounted : Client countedBodies := .new (.ofElements [])
def firstBegun : Client countedBodies := (uncounted.beginPass "a").2
def stateMade : Client countedBodies := (firstBegun.useState "a" (.int 1)).2
def nestedBegun : Client countedBodies := (stateMade.beginPass "b").2
def nestedMade : Client countedBodies := (nestedBegun.useState "b" (.text "x")).2
def nestedEnded : Client countedBodies := nestedMade.endPass (some "a")
def cellMade : Client countedBodies := (nestedEnded.useCell "a" (.int 0)).2
def firstEnded : Client countedBodies := cellMade.endPass none
def stateWritten : Client countedBodies := (firstEnded.store ⟨"a", 0, .int⟩ (.int 5)).2
def secondBegun : Client countedBodies := (stateWritten.beginPass "a").2
def stateFound : Client countedBodies := (secondBegun.useState "a" (.int 1)).2
def cellFound : Client countedBodies := (stateFound.useCell "a" (.int 0)).2

/-- What happened in the first pass, up to its second hook. -/
def firstDeeds : List Deed :=
  [.called "b" 0 (.state (.text "x") (nestedBegun.useState "b" (.text "x")).1), .began "b",
    .called "a" 0 (.state (.int 1) (firstBegun.useState "a" (.int 1)).1), .began "a"]

/-- What happened from the second hook of the first pass to that of the second pass. -/
def bothPasses : List Deed :=
  [.called "a" 1 (.cell (.int 0) (stateFound.useCell "a" (.int 0)).1),
    .called "a" 0 (.state (.int 1) (secondBegun.useState "a" (.int 1)).1), .began "a",
    .stored ⟨"a", 0, .int⟩ (.int 5),
    .called "a" 1 (.cell (.int 0) (nestedEnded.useCell "a" (.int 0)).1)] ++ firstDeeds

theorem chronicle_bothPasses : Chronicle uncounted bothPasses cellFound := by
  have begun : Chronicle uncounted _ firstBegun := .deed (.refl uncounted) (.begins _ "a")
  have made : Chronicle uncounted _ stateMade := .deed begun (.useState _ "a" (.int 1))
  have inner : Chronicle uncounted _ nestedBegun := .deed made (.begins _ "b")
  have nested : Chronicle uncounted _ nestedMade := .deed inner (.useState _ "b" (.text "x"))
  have back : Chronicle uncounted _ nestedEnded :=
    .aside nested (.endPass _ (some "a")) (.of_records rfl rfl)
  have cell : Chronicle uncounted _ cellMade := .deed back (.useCell _ "a" (.int 0))
  have ended : Chronicle uncounted _ firstEnded :=
    .aside cell (.endPass _ none) (.of_records rfl rfl)
  have written : Chronicle uncounted _ stateWritten :=
    .deed ended (.stores (s := ⟨"a", 0, .int⟩) (v := .int 5) (by decide +kernel))
  have again : Chronicle uncounted _ secondBegun := .deed written (.begins _ "a")
  have found : Chronicle uncounted _ stateFound := .deed again (.useState _ "a" (.int 1))
  exact .deed found (.useCell _ "a" (.int 0))

theorem handedOut_bothPasses : HandedOut bothPasses := by
  have given : (firstBegun.useState "a" (.int 1)).1 = .ok (.int 1, ⟨"a", 0, .int⟩) := rfl
  refine ⟨⟨"a", 0, .int 1, .int 1, ?_⟩, trivial⟩
  rw [← given]
  simp [firstDeeds]

/-- The component calls a state and then a cell. -/
def stateThenCell : Nat → HookKind
  | 0 => .state .int
  | _ => .cell .int

theorem inOrder_bothPasses : InOrder "a" stateThenCell bothPasses := by
  intro i call called
  simp only [bothPasses, firstDeeds, List.cons_append, List.nil_append, List.mem_cons,
    List.not_mem_nil, or_false, Deed.called.injEq, reduceCtorEq, false_or] at called
  rcases called with ⟨_, rfl, rfl⟩ | ⟨_, rfl, rfl⟩ | ⟨_, rfl, rfl⟩ | ⟨other, _⟩ | ⟨_, rfl, rfl⟩
  · rfl
  · rfl
  · rfl
  · exact absurd other (by decide)
  · rfl

/-- The cell of the first pass is claimed behind the state, although a pass of another
    component was nested; the second pass finds the value stored in between, and the
    cell of the first. -/
theorem bothPasses_keep_positions :
    Chronicle uncounted bothPasses cellFound ∧ HandedOut bothPasses ∧
      InOrder "a" stateThenCell bothPasses ∧
      firstDeeds.countP (·.calls "a") = 1 ∧
      (secondBegun.useState "a" (.int 1)).1 = .ok (.int 5, ⟨"a", 0, .int⟩) ∧
      (∃ r, (stateFound.useCell "a" (.int 0)).1 = .ok r) ∧
      (stateFound.useCell "a" (.int 0)).1 = (nestedEnded.useCell "a" (.int 0)).1 := by
  have told := chronicle_bothPasses
  obtain ⟨_, _, _, positions, steady, _⟩ := hooks_keep_positions told "a"
  obtain ⟨states, cells⟩ := steady stateThenCell handedOut_bothPasses inOrder_bothPasses
  refine ⟨told, handedOut_bothPasses, inOrder_bothPasses, ?_, ?_, ?_⟩
  · refine (positions (bothPasses.take 4) (firstDeeds.take 3) [] 1 _ rfl ?_).symm
    simp [firstDeeds, Deed.restarts, Deed.destroys]
  · exact states (bothPasses.take 1) (bothPasses.drop 2) 0 _ _ rfl
  · refine cells [] ((bothPasses.take 4).drop 1) firstDeeds 1 _ _ _ _ rfl ?_
    simp [bothPasses, Deed.destroys]

end PageTree.Live
