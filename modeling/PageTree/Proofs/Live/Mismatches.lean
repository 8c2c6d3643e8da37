/-
  PageTree/Proofs/Live/Mismatches.lean
  ====================================
  **Which changes of the order of hooks are reported.**

  A hook looks at the slot of its own sort at its position, and at no other one.  If
  there is none it makes one, whatever slots of other sorts are there; if there is one
  whose value is of another kind, it reports the change and leaves everything as it
  is.  So another kind of value is always reported, unless a setter from before the
  component was forgotten has changed the kind that the slot holds; another sort of
  hook never is, and then the component has slots of two sorts at one position.

    * `Chronicle.heldKind`: the kinds that slots hold are those that the log says;
    * `Does.reported`, `Does.answered`: what a hook does where the kind is another one,
      and where it is not;
    * `Chronicle.heldKind_of_own`: while setters are of this life, slots keep the kind
      that they were made for;
    * `changes_reported_iff`: all of it, along all annals.
-/
import PageTree.Proofs.Live.Annals

namespace PageTree.Live

variable {P : Callbacks} {document : Document} {c c' : Client P}
  {log between earlier : List Deed} {id : String} {sort : HookSort} {i : Nat} {call : HookCall}

/-! ### The kinds that slots hold -/

namespace HookCall

/-- The kind of the value that the hook is called with; an effect has none. -/
def valueKind? : HookCall → Option ValueKind
  | .state v _ | .cell v _ => some v.kind
  | .effect => none

/-- The fault that the hook answers with. -/
def fault? : HookCall → Option Fault
  | .state _ (.error f) | .cell _ (.error f) => some f
  | _ => none

/-- The kind of value that is held already is not that of the call. -/
def mismatches (call : HookCall) (held : Option ValueKind) : Bool :=
  held.any fun kind => call.valueKind? != some kind

end HookCall

/-- What a deed makes of the kind of value that a slot of the component holds. -/
def Deed.kindAfter (id : String) (sort : HookSort) (i : Nat) :
    Deed → Option ValueKind → Option ValueKind
  | .called other k call, held =>
    if other = id ∧ k = i ∧ call.sort = sort then held.or call.valueKind? else held
  | .stored s v, held =>
    if sort = .state ∧ s.component = id ∧ s.index = i then some v.kind else held
  | d, held => if d.destroys id then none else held

/-- The kind of value that the slot of a sort holds after the deeds of a log, the latest
    first: that of the call that made the slot, or of what was stored in it since. -/
def heldKind (id : String) (sort : HookSort) (i : Nat) (log : List Deed) : Option ValueKind :=
  log.foldr (Deed.kindAfter id sort i) none

/-- The kind of value that a slot holds. -/
def Client.heldKind (c : Client P) (id : String) : HookSort → Nat → Option ValueKind
  | .state, i => ((c.sheet id).values i).map Value.kind
  | .cell, i => ((c.sheet id).cells i).map fun n => (c.cellValue n).kind
  | .effect, _ => none

theorem Deed.kindAfter_effect (d : Deed) : d.kindAfter id .effect i none = none := by
  cases d with
  | called other k call => cases call <;> simp [Deed.kindAfter, HookCall.sort, HookCall.valueKind?]
  | _ => simp [Deed.kindAfter]

theorem Sheet.kind_after (d : Deed) (h : Sheet) :
    ((Sheet.after id d h).values i).map Value.kind
      = d.kindAfter id .state i ((h.values i).map Value.kind) := by
  cases d with
  | called other k call =>
    by_cases there : other = id ∧ k = i
    · obtain ⟨rfl, rfl⟩ := there
      cases call with
      | state initial answer =>
        cases found : h.values k <;>
          simp [Sheet.after, Sheet.call, Deed.kindAfter, HookCall.sort, HookCall.valueKind?, found]
      | cell | effect => simp [Sheet.after, Sheet.call, Deed.kindAfter, HookCall.sort]
    · have kept : (Sheet.after id (.called other k call) h).values i = h.values i := by
        rw [Sheet.after]
        split
        · next here =>
          have elsewhere : i ≠ k := fun at_i => there ⟨here, at_i.symm⟩
          cases call <;> simp [Sheet.call, elsewhere]
        · rfl
      rw [kept, Deed.kindAfter, if_neg fun all => there ⟨all.1, all.2.1⟩]
  | stored s v =>
    by_cases there : s.component = id ∧ s.index = i
    · obtain ⟨rfl, rfl⟩ := there
      simp [Sheet.after, Deed.kindAfter]
    · rw [values_after_stored there, Deed.kindAfter, if_neg fun all => there all.2]
  | began other | forgot other =>
    by_cases here : other = id <;> simp [Sheet.after, Deed.kindAfter, Deed.destroys, here]
  | filled | cleared => simp [Sheet.after, Deed.kindAfter, Deed.destroys]

/-- Cells come only with the hooks of cells. -/
theorem Sheet.cells_after_of_other {d : Deed}
    (other : ∀ k v answer, d ≠ .called id k (.cell v answer)) (h : Sheet) :
    (Sheet.after id d h).cells i = if d.destroys id then none else h.cells i := by
  cases d with
  | called name k call =>
    by_cases here : name = id
    · subst here
      cases call with
      | cell v answer => exact absurd rfl (other k v answer)
      | state | effect => simp [Sheet.after, Sheet.call, Deed.destroys]
    · simp [Sheet.after, Deed.destroys, here]
  | began name | forgot name =>
    by_cases here : name = id <;> simp [Sheet.after, Deed.destroys, here]
  | stored s v => by_cases own : s.component = id <;> simp [Sheet.after, Deed.destroys, own]
  | filled | cleared => simp [Sheet.after, Deed.destroys]

theorem Deed.kindAfter_of_other {d : Deed}
    (other : ∀ k v answer, d ≠ .called id k (.cell v answer)) (held : Option ValueKind) :
    d.kindAfter id .cell i held = if d.destroys id then none else held := by
  cases d with
  | called name k call =>
    by_cases here : name = id
    · subst here
      cases call with
      | cell v answer => exact absurd rfl (other k v answer)
      | state | effect => simp [Deed.kindAfter, Deed.destroys, HookCall.sort]
    · simp [Deed.kindAfter, Deed.destroys, here]
  | _ => simp [Deed.kindAfter, Deed.destroys]

/-- A hook of a cell that is there leaves all cells as they are. -/
theorem cellKind_claim (other : String) (i : Nat) :
    (c.claim other).2.heldKind id .cell i = c.heldKind id .cell i := by
  have kept : ((c.claim other).2.sheet id).cells = (c.sheet id).cells := by
    rw [sheet_of_get? (get?_claim c other id)]
    split
    · next here =>
      subst here
      rfl
    · rfl
  rw [Client.heldKind, Client.heldKind, kept]
  rfl

/-- A hook of a cell makes a cell of its own kind if there is none. -/
theorem cellKind_useCell (there : ∀ n, (c.sheet id).cells i = some n → n < c.cells.length)
    (other : String) (v : Value) :
    (c.useCell other v).2.heldKind id .cell i
      = (Deed.called other (c.claim other).1 (.cell v (c.useCell other v).1)).kindAfter id .cell i
          (c.heldKind id .cell i) := by
  have position : (c.claim other).1 = (c.recordOf other).cursor := rfl
  rw [position, Deed.kindAfter]
  cases found : (c.recordOf other).cells.get? (c.recordOf other).cursor with
  | some n =>
    have moved : (c.useCell other v).2 = (c.claim other).2 := by rw [useCell_of_kept v found]
    rw [moved, cellKind_claim]
    split
    · next here =>
      obtain ⟨rfl, rfl, -⟩ := here
      have held : c.heldKind other .cell (c.recordOf other).cursor = some (c.cellValue n).kind :=
        congrArg (Option.map fun n => (c.cellValue n).kind) found
      rw [held, Option.some_or]
    · rfl
  | none =>
    obtain ⟨-, cells, given⟩ := useCell_of_none id v found
    have old (n : Nat) (inside : n < c.cells.length) :
        ((c.useCell other v).2.cellValue n).kind = (c.cellValue n).kind := by
      rw [Client.cellValue, cells, List.getD_append _ _ _ _ inside, Client.cellValue]
    rw [Client.heldKind, sheet_of_get? given]
    split
    · next here =>
      subst here
      by_cases at_i : (c.recordOf other).cursor = i
      · subst at_i
        have held : c.heldKind other .cell (c.recordOf other).cursor = none :=
          congrArg (Option.map fun n => (c.cellValue n).kind) found
        rw [held]
        simp [HookRecord.sheet, Client.cellValue, cells, HookCall.sort, HookCall.valueKind?]
      · rw [if_neg fun all => at_i all.2.1, Client.heldKind]
        have same : (c.recordOf other).sheet.cells i = (c.sheet other).cells i := rfl
        simp only [HookRecord.sheet, Slots.get?_insert_of_ne at_i]
        refine Option.map_congr fun n inside => old n (there n inside)
    · next elsewhere =>
      rw [if_neg fun all => elsewhere all.1, Client.heldKind]
      exact Option.map_congr fun n inside => old n (there n inside)

/-- A cell that was given out is filled with values of one kind. -/
theorem cellKind_writeCell (keeps : KeepsCells log c) {r : CellRef} {v : Value}
    (kind : v.kind = r.kind)
    (handed : ∃ id i initial, .called id i (.cell initial (.ok r)) ∈ log) :
    (c.writeCell r v).heldKind id .cell i = c.heldKind id .cell i := by
  obtain ⟨other, k, initial, given⟩ := handed
  obtain ⟨-, inside, held⟩ := keeps other k initial r given
  rw [Client.writeCell, if_pos kind, Client.heldKind, Client.heldKind]
  refine Option.map_congr fun n _ => ?_
  by_cases same : r.cell = n
  · subst same
    have written : ({ c with cells := c.cells.set r.cell v } : Client P).cellValue r.cell = v := by
      simp [Client.cellValue, inside]
    rw [written, kind, held]
  · simp [Client.cellValue, List.getD_eq_getElem?_getD, same]

/-- Other deeds leave all cells and what is in them alone, or forget the component. -/
theorem Does.cellKind_of_other {d : Deed} (did : Does c d c') (numbered : Numbered c)
    (uncalled : ∀ id i v answer, d ≠ .called id i (.cell v answer))
    (unfilled : ∀ r v, d ≠ .filled r v) :
    c'.heldKind id .cell i = d.kindAfter id .cell i (c.heldKind id .cell i) := by
  have same (n : Nat) : c'.cellValue n = c.cellValue n := by
    rw [Client.cellValue, Client.cellValue, did.cells_eq uncalled unfilled]
  rw [Client.heldKind, did.sheet numbered, Sheet.cells_after_of_other (uncalled id),
    Deed.kindAfter_of_other (uncalled id), Client.heldKind]
  split
  · rfl
  · simp only [same]

theorem Does.cellKind {d : Deed} (did : Does c d c')
    (told : Chronicle (Client.new document) log c) (handed : HandedOut (d :: log)) :
    c'.heldKind id .cell i = d.kindAfter id .cell i (c.heldKind id .cell i) := by
  have keeps := told.keepsCells handed.tail
  have others (uncalled : ∀ id i v answer, d ≠ .called id i (.cell v answer))
      (unfilled : ∀ r v, d ≠ .filled r v) :
      c'.heldKind id .cell i = d.kindAfter id .cell i (c.heldKind id .cell i) :=
    did.cellKind_of_other told.numbered uncalled unfilled
  cases did with
  | useCell other v =>
    refine cellKind_useCell (fun n there => ?_) other v
    rw [told.sheet] at there
    obtain ⟨initial, r, given, rfl⟩ := exists_of_cells there
    exact (keeps id i initial r given).2.1
  | fills kind =>
    rw [Deed.kindAfter_of_other (by simp)]
    exact cellKind_writeCell keeps kind handed.1
  | _ => exact others (by simp) (by simp)

/-- By induction on the chronicle: the kinds that slots hold are those that the log says. -/
theorem Chronicle.heldKind (told : Chronicle (Client.new document) log c)
    (handed : HandedOut log) : c.heldKind id sort i = Live.heldKind id sort i log := by
  induction told with
  | refl => cases sort <;> rfl
  | @aside log c₁ c₂ told motion same ih =>
    rw [← ih handed]
    have value (n : Nat) : c₂.cellValue n = c₁.cellValue n := by
      rw [Client.cellValue, Client.cellValue, same.cells]
    cases sort with
    | effect => rfl
    | state | cell => simp only [Client.heldKind, same.sheet, value]
  | @deed log c₁ d c₂ told did ih =>
    show c₂.heldKind id sort i = d.kindAfter id sort i (Live.heldKind id sort i log)
    rw [← ih handed.tail]
    cases sort with
    | effect => exact (d.kindAfter_effect).symm
    | state => rw [Client.heldKind, did.sheet told.numbered, Sheet.kind_after, Client.heldKind]
    | cell => exact did.cellKind told handed

/-! ### What hooks answer -/

/-- A hook that finds another kind of value reports that, and no hook reports anything
    else. -/
theorem Does.fault_eq (did : Does c (.called id i call) c') :
    call.fault? = if call.mismatches (c.heldKind id call.sort i) then some (.hookChanged id i)
      else none := by
  cases call with
  | effect => rfl
  | state initial answer =>
    rw [did.state_answer, handState, HookCall.sort, Client.heldKind]
    cases found : (c.sheet id).values i with
    | none => simp [HookCall.fault?, HookCall.mismatches]
    | some v =>
      by_cases same : v.kind = initial.kind
      · simp [HookCall.fault?, HookCall.mismatches, HookCall.valueKind?, same]
      · simp [HookCall.fault?, HookCall.mismatches, HookCall.valueKind?, same, Ne.symm same]
  | cell initial answer =>
    obtain ⟨kept, made⟩ := did.cell_answer
    rw [HookCall.sort, Client.heldKind]
    cases found : (c.sheet id).cells i with
    | none => simp [made found, HookCall.fault?, HookCall.mismatches]
    | some n =>
      rw [kept n found]
      by_cases same : (c.cellValue n).kind = initial.kind
      · simp [HookCall.fault?, HookCall.mismatches, HookCall.valueKind?, same]
      · simp [HookCall.fault?, HookCall.mismatches, HookCall.valueKind?, same, Ne.symm same]

/-- The client after a position of the component has been claimed for nothing. -/
def Client.skipPosition (c : Client P) (id : String) : Client P :=
  c.modifyRecord id fun r => { r with cursor := r.cursor + 1 }

theorem claim_eq_skipPosition {r : HookRecord P} (record : c.records.get? id = some r) :
    (c.claim id).2 = c.skipPosition id := by
  have known : c.records.contains id = true := by simp [OrderedMap.contains, record]
  have moved : c.records.insert id { r with cursor := r.cursor + 1 }
      = c.records.modify id fun r => { r with cursor := r.cursor + 1 } := by
    rw [OrderedMap.insert_eq_modify record]
    refine OrderedMap.modify_congr fun v found => ?_
    obtain rfl : r = v := Option.some.inj (record.symm.trans found)
    rfl
  simp only [Client.claim, recordOf_of_get? record, known, moved, if_true]
  rfl

/-- The hook of a state that is there puts it back. -/
theorem useState_eq_skipPosition {r : HookRecord P} (record : c.records.get? id = some r)
    {slot : StateSlot P} (there : r.states.get? r.cursor = some slot) (v : Value) :
    (c.useState id v).2 = c.skipPosition id := by
  have here : r.stateHere v = slot := by rw [HookRecord.stateHere, there, Option.getD_some]
  rw [useState_eq, claim_eq_skipPosition record, recordOf_of_get? record, here]
  have kept : (c.skipPosition id).records.modify id (.putState r.cursor slot)
      = (c.skipPosition id).records := by
    refine OrderedMap.modify_eq_self fun r' found => ?_
    rw [Client.skipPosition, Client.modifyRecord, OrderedMap.get?_modify, record] at found
    obtain rfl : { r with cursor := r.cursor + 1 } = r' := by simpa using found
    rw [HookRecord.putState, Slots.insert_eq_self there]
  rw [Client.modifyRecord, kept]

/-- **A hook that reports a change makes none**: the position is claimed, and nothing
    else of the client is another one. -/
theorem Does.reported (did : Does c (.called id i call) c')
    (mismatch : call.mismatches (c.heldKind id call.sort i)) : c' = c.skipPosition id := by
  obtain ⟨kind, held, -⟩ := (Option.any_eq_true _ _).1 mismatch
  obtain ⟨r, record⟩ : ∃ r, c.records.get? id = some r := by
    cases record : c.records.get? id with
    | some r => exact ⟨r, rfl⟩
    | none =>
      have blank : c.sheet id = {} := by
        rw [sheet_eq, record]
        rfl
      cases sort : call.sort <;> simp [Client.heldKind, blank, sort] at held
  have known := recordOf_of_get? record
  cases did with
  | useEffect => cases held
  | useCell v =>
    obtain ⟨n, found, -⟩ := Option.map_eq_some_iff.1 held
    rw [useCell_of_kept _ found]
    exact claim_eq_skipPosition record
  | useState v =>
    obtain ⟨_, found, -⟩ := Option.map_eq_some_iff.1 held
    obtain ⟨slot, there, -⟩ := Option.map_eq_some_iff.1 found
    have there : (c.recordOf id).states.get? (c.recordOf id).cursor = some slot := there
    rw [known] at there
    exact useState_eq_skipPosition record there _

/-! ### Two calls at one position -/

/-- What is stored in the states of the component since it was forgotten last is stored
    through setters that were given out since then. -/
def OwnSetters (id : String) (log : List Deed) : Prop :=
  ∀ later s v earlier, log = later ++ Deed.stored s v :: earlier →
    (∀ d ∈ later, d.destroys id = false) → s.component = id →
    ∃ i initial x, .called id i (.state initial (.ok (x, s))) ∈ life id earlier

theorem OwnSetters.tail {d : Deed} (own : OwnSetters id (d :: log)) (kept : d.destroys id = false) :
    OwnSetters id log := by
  intro later s v earlier whole undisturbed
  refine own (d :: later) s v earlier (by rw [whole, List.cons_append]) ?_
  exact List.forall_mem_cons.2 ⟨kept, undisturbed⟩

theorem valueKind?_eq_none (effect : call.sort = .effect) : call.valueKind? = none := by
  cases call with
  | effect => rfl
  | state | cell => cases effect

/-- A call that is answered leaves a slot of its own kind. -/
theorem kindAfter_answered {held : Option ValueKind} (fits : call.mismatches held = false) :
    (Deed.called id i call).kindAfter id call.sort i held = call.valueKind? := by
  rw [Deed.kindAfter, if_pos ⟨rfl, rfl, rfl⟩]
  cases held with
  | none => rfl
  | some kind =>
    have same : call.valueKind? = some kind := by simpa [HookCall.mismatches] using fits
    rw [same, Option.some_or]

/-- Other deeds leave that kind as it is, unless another kind of value is stored. -/
theorem Deed.kindAfter_kept {d : Deed} (kept : d.destroys id = false)
    (stored : ∀ s v, d = .stored s v → call.sort = .state → s.component = id → s.index = i →
      call.valueKind? = some v.kind) :
    d.kindAfter id call.sort i call.valueKind? = call.valueKind? := by
  cases d with
  | called other k second =>
    rw [kindAfter]
    split
    · next same =>
      cases found : call.valueKind? with
      | some kind => rfl
      | none =>
        cases call with
        | effect => exact valueKind?_eq_none same.2.2
        | state | cell => cases found
    · rfl
  | stored s v =>
    rw [kindAfter]
    split
    · next here => exact (stored s v rfl here.1 here.2.1 here.2.2).symm
    · rfl
  | began | filled => rfl
  | forgot other => simp [kindAfter, kept]
  | cleared => cases kept

/-- By induction on the chronicle: while the setters are of this life of the component, a
    slot keeps the kind of every call that was answered from it. -/
theorem Chronicle.heldKind_of_own (told : Chronicle (Client.new document) log c)
    (handed : HandedOut log) (own : OwnSetters id log)
    (called : .called id i call ∈ life id log) (answered : call.fault? = none) :
    Live.heldKind id call.sort i log = call.valueKind? := by
  induction told generalizing i call with
  | refl => cases called
  | aside _ _ _ ih => exact ih handed own called answered
  | @deed log c₁ d c₂ told did ih =>
    rw [life_cons] at called
    split at called
    · cases called
    next kept =>
    have kept : d.destroys id = false := by simpa using kept
    have before {i : Nat} {call : HookCall} (called : .called id i call ∈ life id log)
        (answered : call.fault? = none) :
        Live.heldKind id call.sort i log = call.valueKind? :=
      ih handed.tail (own.tail kept) called answered
    show d.kindAfter id call.sort i (Live.heldKind id call.sort i log) = call.valueKind?
    rcases List.mem_cons.1 called with rfl | known
    · refine kindAfter_answered ?_
      have fault := did.fault_eq
      rw [answered, told.heldKind handed.tail] at fault
      by_contra mismatch
      rw [if_pos (by simpa using mismatch)] at fault
      cases fault
    · rw [before known answered]
      refine Deed.kindAfter_kept kept ?_
      rintro s v rfl state mine rfl
      -- the setter was given out by a call that was answered from this slot, too
      obtain ⟨k, initial, x, given⟩ := own [] s v log rfl (by simp) mine
      obtain rfl := told.setter_eq (mem_of_mem_life given)
      have made : Live.heldKind id .state k log = some initial.kind := before given rfl
      have held := before known answered
      rw [state, made] at held
      rw [did.stored_kind]
      exact held.symm

/-- A hook is told from another one of its sort by the kind of its value. -/
theorem HookCall.kind_ne_iff {first second : HookCall} (same : second.sort = first.sort) :
    second.kind ≠ first.kind ↔ second.mismatches first.valueKind? := by
  cases first <;> cases second <;>
    simp_all [HookCall.sort, HookCall.kind, HookCall.mismatches, HookCall.valueKind?]

/-- A slot that no hook of its sort has claimed holds nothing. -/
theorem Annals.heldKind_eq_none (told : Annals (Client.new document) log c)
    (handed : HandedOut log) (unclaimed : ¬ Claimed id sort i log) :
    Live.heldKind id sort i log = none := by
  rw [← told.chronicle.heldKind handed]
  have missing : c.has id sort i = false :=
    Bool.eq_false_iff.2 fun there => unclaimed (told.has_iff.1 there)
  cases sort with
  | effect => rfl
  | state | cell =>
    rw [Client.has, Option.isSome_eq_false_iff, Option.isNone_iff_eq_none] at missing
    rw [Client.heldKind, missing, Option.map_none]

/-! ### All runs -/

/-- **Which changes of the order of hooks are reported.**  The annals of a client go on
    with every run and with every hook that is called for a component.

    A component has those slots that its hooks have claimed since it was forgotten last,
    and they are at different positions exactly if no position was claimed by hooks of
    two sorts.  A hook reports a change exactly if the slot of its own sort at its position
    holds another kind of value, and then everything but the next position stays as it
    is.  So of two calls that claim one position without the component being forgotten
    in between, the first one being answered, the second is reported exactly if its value
    is of another kind, where both are of one sort and setters from before the component
    was forgotten are not used; and it is answered where it is the first one of another
    sort. -/
theorem changes_reported_iff (told : Annals (Client.new document) log c) (handed : HandedOut log)
    (id : String) :
    (∀ {μ α : Type} (p : Program P μ) (depth : Nat) (m : Routine P μ α) (memory : μ) (a : α)
        (w' : World P μ), p.run depth m ⟨c, memory⟩ = some (a, w') →
      ∃ later, Annals (Client.new document) (later ++ log) w'.client) ∧
    (∀ {μ β : Type} (calls : Calls P μ) (scope : Option String) (r : Request P β) (answer : β)
        (ambient : Bool) (call : HookCall) (memory : μ) (w' : World P μ),
      r.hookCall answer = some (ambient, call) → Calls.hookTarget scope ambient c = some id →
      calls.serve scope r ⟨c, memory⟩ = some (answer, w') →
      Annals (Client.new document) (.called id (sheet id log).position call :: log) w'.client) ∧
    (∀ sort i, i ∈ (c.stateOf id).positions sort ↔ Claimed id sort i log) ∧
    ((∀ i sort sort', i ∈ (c.stateOf id).positions sort → i ∈ (c.stateOf id).positions sort' →
        sort = sort') ↔
      ∀ i call call', Deed.called id i call ∈ life id log → Deed.called id i call' ∈ life id log →
        call.sort = call'.sort) ∧
    (∀ later earlier i call, log = later ++ Deed.called id i call :: earlier →
      ∃ c₁ c₂, Annals (Client.new document) earlier c₁ ∧ Does c₁ (.called id i call) c₂ ∧
        Annals c₂ later c ∧
        call.fault? = (if call.mismatches (heldKind id call.sort i earlier) then
          some (.hookChanged id i) else none) ∧
        (call.fault? ≠ none → c₂ = c₁.skipPosition id)) ∧
    ∀ later between earlier i first second,
      log = later ++ Deed.called id i second :: (between ++ Deed.called id i first :: earlier) →
      (∀ d ∈ between, d.destroys id = false) → first.fault? = none →
      (second.sort = first.sort →
        OwnSetters id (between ++ Deed.called id i first :: earlier) →
        (second.fault? = some (.hookChanged id i) ↔ second.kind ≠ first.kind)) ∧
      (¬ Claimed id second.sort i (between ++ Deed.called id i first :: earlier) →
        second.fault? = none) := by
  have slots (sort : HookSort) (i : Nat) :
      i ∈ (c.stateOf id).positions sort ↔ Claimed id sort i log :=
    mem_positions_iff.trans told.has_iff
  refine ⟨?_, ?_, slots, ?_, ?_, ?_⟩
  · intro μ α p depth m memory a w' ran
    obtain ⟨later, meanwhile⟩ := (Path.of_run ran).annals
    exact ⟨later, told.trans meanwhile⟩
  · intro μ β calls scope r answer ambient call memory w' hook target served
    have did := does_of_served hook target served
    have position : (c.claim id).1 = (sheet id log).position := by
      rw [← told.chronicle.sheet]
      rfl
    exact .deed told (position ▸ did)
  · simp only [slots]
    constructor
    · intro apart i call call' first second
      exact apart i _ _ ⟨call, rfl, first⟩ ⟨call', rfl, second⟩
    · rintro apart i _ _ ⟨call, rfl, first⟩ ⟨call', rfl, second⟩
      exact apart i call call' first second
  · intro later earlier i call whole
    subst whole
    obtain ⟨c₁, c₂, before, did, after⟩ := told.split
    have held : c₁.heldKind id call.sort i = heldKind id call.sort i earlier :=
      before.chronicle.heldKind handed.of_append.tail
    have fault := did.fault_eq
    refine ⟨c₁, c₂, before, did, after, held ▸ fault, fun reported => did.reported ?_⟩
    by_contra fits
    exact reported (fault.trans (if_neg fits))
  · intro later between earlier i first second whole kept answered
    subst whole
    obtain ⟨c₁, c₂, before, did, after⟩ := told.split
    have handed := handed.of_append.tail
    have fault := did.fault_eq
    rw [before.chronicle.heldKind handed] at fault
    constructor
    · intro same own
      have there : .called id i first ∈ life id (between ++ .called id i first :: earlier) :=
        mem_life_of_append kept rfl
      rw [same, before.chronicle.heldKind_of_own handed own there answered] at fault
      rw [HookCall.kind_ne_iff same, fault]
      simp
    · intro unclaimed
      rw [before.heldKind_eq_none handed unclaimed] at fault
      exact fault

/-! ### Another kind of value, and another sort of hook -/

abbrev unrelated : Callbacks where
  Body := Empty
  Effect := Unit
  Cleanup := Empty
  Listener := Empty
  View := Empty

def untouched : Client unrelated := .new (.ofElements [])
def numberBegun : Client unrelated := (untouched.beginPass "c").2
def numberKept : Client unrelated := (numberBegun.useState "c" (.int 1)).2
def nextBegun : Client unrelated := ((numberKept.endPass none).beginPass "c").2
def textAsked : Client unrelated := (nextBegun.useState "c" (.text "x")).2
def effectAsked : Client unrelated := nextBegun.useEffect "c" (some .unit) ()

/-- A pass with the state of a number, and the beginning of the next one. -/
def numberDeeds : List Deed :=
  [.began "c", .called "c" 0 (.state (.int 1) (numberBegun.useState "c" (.int 1)).1), .began "c"]

theorem annals_numberDeeds : Annals untouched numberDeeds nextBegun := by
  have begun : Annals untouched _ numberBegun := .deed (.refl untouched) (.begins _ "c")
  have kept : Annals untouched _ numberKept := .deed begun (.useState _ "c" (.int 1))
  have ended : Annals untouched _ (numberKept.endPass none) :=
    .aside kept (.endPass _ none) (.of_records rfl rfl)
  exact .deed ended (.begins _ "c")

/-- The state of a text, where the component had that of a number. -/
def textCall : HookCall := .state (.text "x") (nextBegun.useState "c" (.text "x")).1

theorem text_for_number_reported :
    Annals untouched (.called "c" 0 textCall :: numberDeeds) textAsked ∧
      HandedOut (.called "c" 0 textCall :: numberDeeds) ∧
      textCall.fault? = some (.hookChanged "c" 0) ∧
      ∀ i sort sort', i ∈ (textAsked.stateOf "c").positions sort →
        i ∈ (textAsked.stateOf "c").positions sort' → sort = sort' := by
  have told : Annals untouched (.called "c" 0 textCall :: numberDeeds) textAsked :=
    .deed annals_numberDeeds (.useState _ "c" (.text "x"))
  have handed : HandedOut (.called "c" 0 textCall :: numberDeeds) := trivial
  obtain ⟨-, -, -, apart, -, changes⟩ := changes_reported_iff told handed "c"
  obtain ⟨same, -⟩ := changes [] [.began "c"] [.began "c"] 0 _ textCall rfl (by decide) rfl
  refine ⟨told, handed, (same rfl ?_).2 (by decide), apart.2 ?_⟩
  · -- nothing is stored
    intro later s v earlier whole
    have stored : Deed.stored s v ∈ numberDeeds := by
      rw [show numberDeeds = _ from whole]
      simp
    simp [numberDeeds] at stored
  · have states {i : Nat} {call : HookCall}
        (called : .called "c" i call ∈ life "c" (.called "c" 0 textCall :: numberDeeds)) :
        call.sort = .state := by
      have listed : life "c" (.called "c" 0 textCall :: numberDeeds)
          = .called "c" 0 textCall :: numberDeeds := rfl
      rw [listed] at called
      simp only [numberDeeds, List.mem_cons, List.not_mem_nil, or_false,
        Deed.called.injEq, reduceCtorEq, false_or] at called
      rcases called with ⟨-, -, rfl⟩ | ⟨-, -, rfl⟩ <;> rfl
    intro i call call' first second
    rw [states first, states second]

/-- An effect, where the component had a state: no change is reported, and the component
    has a slot of either sort at the position. -/
theorem effect_for_state_unreported :
    Annals untouched (.called "c" 0 .effect :: numberDeeds) effectAsked ∧
      (HookCall.effect.kind ≠ HookKind.state .int) ∧ HookCall.effect.fault? = none ∧
      (effectAsked.stateOf "c").states = [0] ∧ (effectAsked.stateOf "c").effects = [0] :=
  ⟨.deed annals_numberDeeds (.useEffect nextBegun "c" (some .unit) ()), by decide, rfl, by decide,
    by decide⟩

end PageTree.Live
