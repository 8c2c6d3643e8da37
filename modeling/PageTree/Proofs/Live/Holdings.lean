/-
  PageTree/Proofs/Live/Holdings.lean
  ==================================
  **A store that looks at the kinds of its values.**

  Values that components share are kept in contexts, under ids.  Whoever makes a
  context or asks for it gets a handle, which knows the id and the kind of the
  value, and the handle outlives the context: meanwhile the context may be deleted
  and made again with a value of another kind.  So the kind is looked at whenever a
  value is read or replaced.

    * `Holdings`: the store, and what every call makes of it;
    * `ContextCall.succeeds_iff`: a call succeeds exactly when it finds what it asks
      for;
    * `Holdings.kind_changed`: a kind changes when the context is deleted and made
      again.
-/
import PageTree.Live.Routine
import Mathlib.Data.List.Basic
import Mathlib.Logic.Function.Basic

namespace PageTree.Live

variable {P : Callbacks} {μ : Type}

/-! ### The store -/

/-- Values under ids. -/
abbrev Holdings := String → Option Value

namespace Holdings

/-- The value under an id, as long as it is of the kind. -/
def look (m : Holdings) (id : String) (kind : ValueKind) : Except Fault Value :=
  match m id with
  | none => .error (.noContext id)
  | some v => if v.kind = kind then .ok v else .error (.contextKind id)

def put (m : Holdings) (id : String) (v : Value) : Holdings := Function.update m id (some v)

def drop (m : Holdings) (id : String) : Holdings := Function.update m id none

/-- Puts the value that follows that of a handle in its place. -/
def replace (m : Holdings) (h : ContextHandle) (next : Value → Value) :
    Except Fault Unit × Holdings :=
  match m.look h.id h.kind with
  | .error e => (.error e, m)
  | .ok x => (.ok (), m.put h.id (next x))

/-- There is a value of the kind under the id. -/
def Has (m : Holdings) (id : String) (kind : ValueKind) : Prop := ∃ v, m id = some v ∧ v.kind = kind

theorem put_apply (m : Holdings) (id other : String) (v : Value) :
    m.put id v other = if other = id then some v else m other :=
  Function.update_apply ..

theorem drop_apply (m : Holdings) (id other : String) :
    m.drop id other = if other = id then none else m other :=
  Function.update_apply ..

theorem look_eq_ok_iff {m : Holdings} {id : String} {kind : ValueKind} {v : Value} :
    m.look id kind = .ok v ↔ m id = some v ∧ v.kind = kind := by
  rw [look]
  cases m id with
  | none => simp
  | some x =>
    by_cases same : x.kind = kind
    · simp only [same, if_true, Except.ok.injEq, Option.some.injEq]
      constructor
      · rintro rfl
        exact ⟨rfl, same⟩
      · exact And.left
    · simp only [same, if_false, Option.some.injEq]
      constructor
      · intro h
        cases h
      · rintro ⟨rfl, kind⟩
        exact absurd kind same

theorem has_iff {m : Holdings} {id : String} {kind : ValueKind} :
    m.Has id kind ↔ ∃ v, m.look id kind = .ok v :=
  exists_congr fun _ => look_eq_ok_iff.symm

end Holdings

/-! ### Calls -/

/-- What may be done with contexts. -/
inductive ContextCall where
  | create (id : String) (initial : Value)
  /-- Ask for a handle to a context that is there. -/
  | find (id : String) (kind : ValueKind)
  | delete (id : String)
  | get (h : ContextHandle)
  | set (h : ContextHandle) (v : Value)
  | update (h : ContextHandle) (next : Value → Value)

namespace ContextCall

def Answer : ContextCall → Type
  | create _ _ | find _ _ => Except Fault ContextHandle
  | delete _ => Bool
  | get _ => Except Fault Value
  | set _ _ | update _ _ => Except Fault Unit

/-- Through a handle only values of its kind are written. -/
def Typed : ContextCall → Prop
  | set h v => v.kind = h.kind
  | update h next => ∀ x, x.kind = h.kind → (next x).kind = h.kind
  | _ => True

def Succeeds : (call : ContextCall) → call.Answer → Bool
  | create _ _, a | find _ _, a => Except.toBool a
  | delete _, a => a
  | get _, a => Except.toBool a
  | set _ _, a | update _ _, a => Except.toBool a

/-- What the call finds is of the kind that it asks for.  A context that is made may
    be missing. -/
def Fits (m : Holdings) : ContextCall → Prop
  | create id v => m id = none ∨ m.Has id v.kind
  | find id kind => m.Has id kind
  | delete id => ∃ v, m id = some v
  | get h | set h _ | update h _ => m.Has h.id h.kind

/-- The call replaces a value, if it succeeds. -/
def Replaces : ContextCall → Bool
  | set _ _ | update _ _ => true
  | _ => false

/-- What a call answers, and what it makes of a store. -/
def on (m : Holdings) : (call : ContextCall) → call.Answer × Holdings
  | create id v =>
    match m id with
    | none => (.ok ⟨id, v.kind⟩, m.put id v)
    | some x => (if x.kind = v.kind then .ok ⟨id, v.kind⟩ else .error (.contextKind id), m)
  | find id kind => ((m.look id kind).map fun _ => ⟨id, kind⟩, m)
  | delete id => ((m id).isSome, m.drop id)
  | get h => (m.look h.id h.kind, m)
  | set h v => m.replace h fun _ => v
  | update h next => m.replace h next

def routine : (call : ContextCall) → Routine P μ call.Answer
  | create id v => Routine.request (.createContext id v)
  | find id kind => Routine.request (.openContext id kind)
  | delete id => Routine.request (.deleteContext id)
  | get h => Routine.request (.readContext h)
  | set h v => Routine.request (.writeContext h v)
  | update h next => Routine.updateContext h next

end ContextCall

/-- A call and its answer. -/
structure ContextEntry where
  call : ContextCall
  answer : call.Answer

/-- Calls one after another, with their answers. -/
def contextCalls : List ContextCall → Routine P μ (List ContextEntry)
  | [] => return []
  | call :: cs => do
    let a ← call.routine
    let h ← contextCalls cs
    return ⟨call, a⟩ :: h

namespace Holdings

/-- What calls one after another answer. -/
def answers (m : Holdings) : List ContextCall → List ContextEntry
  | [] => []
  | call :: cs => ⟨call, (call.on m).1⟩ :: answers (call.on m).2 cs

/-- What calls one after another make of a store. -/
def after (m : Holdings) : List ContextCall → Holdings
  | [] => m
  | call :: cs => after (call.on m).2 cs

theorem after_append (m : Holdings) (cs ds : List ContextCall) :
    m.after (cs ++ ds) = (m.after cs).after ds := by
  induction cs generalizing m with
  | nil => rfl
  | cons call cs ih => exact ih (call.on m).2

end Holdings

/-! ### When calls succeed -/

theorem Holdings.toBool_look {m : Holdings} {id : String} {kind : ValueKind} :
    (m.look id kind).toBool = true ↔ m.Has id kind := by
  rw [Holdings.has_iff]
  cases m.look id kind with
  | error => simp [Except.toBool]
  | ok v => simp [Except.toBool]

theorem Holdings.toBool_replace {m : Holdings} {h : ContextHandle} {next : Value → Value} :
    (m.replace h next).1.toBool = true ↔ m.Has h.id h.kind := by
  rw [← toBool_look, replace]
  cases m.look h.id h.kind <;> rfl

namespace ContextCall

/-- A call succeeds exactly when it finds what it asks for. -/
theorem succeeds_iff (m : Holdings) (call : ContextCall) :
    call.Succeeds (call.on m).1 = true ↔ call.Fits m := by
  cases call with
  | create id v =>
    simp only [Fits, Holdings.Has, on]
    cases m id with
    | none => simp [Succeeds, Except.toBool]
    | some x => by_cases same : x.kind = v.kind <;> simp [Succeeds, Except.toBool, same]
  | find id kind =>
    rw [Fits, ← Holdings.toBool_look, on, Succeeds]
    cases m.look id kind <;> rfl
  | delete id => exact Option.isSome_iff_exists
  | get h => exact Holdings.toBool_look
  | set h v => exact Holdings.toBool_replace
  | update h next => exact Holdings.toBool_replace

end ContextCall

/-! ### Kinds in the store -/

namespace Holdings

variable {m : Holdings} {id : String} {v : Value}

theorem kind_replace {h : ContextHandle} {next : Value → Value}
    (typed : ∀ x, x.kind = h.kind → (next x).kind = h.kind) (found : m id = some v) :
    ∃ x, (m.replace h next).2 id = some x ∧ x.kind = v.kind := by
  rw [replace]
  cases looked : m.look h.id h.kind with
  | error e => exact ⟨v, found, rfl⟩
  | ok x =>
    obtain ⟨there, kind⟩ := look_eq_ok_iff.1 looked
    by_cases here : id = h.id
    · subst here
      obtain rfl := Option.some.inj (there.symm.trans found)
      exact ⟨next x, by simp [put_apply], (typed x kind).trans kind.symm⟩
    · exact ⟨v, by simpa [put_apply, here] using found, rfl⟩

/-- A handle makes no context. -/
theorem replace_of_absent {h : ContextHandle} {next : Value → Value} (absent : m id = none) :
    (m.replace h next).2 id = none := by
  rw [replace]
  cases looked : m.look h.id h.kind with
  | error e => exact absent
  | ok x =>
    have ne : id ≠ h.id := by
      rintro rfl
      cases absent.symm.trans (look_eq_ok_iff.1 looked).1
    simpa [put_apply, ne] using absent

/-- Unless the call deletes the context, the context keeps its kind. -/
theorem kind_kept {call : ContextCall} (typed : call.Typed) (found : m id = some v) :
    call = .delete id ∨ ∃ x, (call.on m).2 id = some x ∧ x.kind = v.kind := by
  cases call with
  | create other u =>
    refine .inr ⟨v, ?_, rfl⟩
    rw [ContextCall.on]
    cases there : m other with
    | none =>
      have ne : id ≠ other := by
        rintro rfl
        cases there.symm.trans found
      simpa [put_apply, ne] using found
    | some x => exact found
  | find other kind => exact .inr ⟨v, found, rfl⟩
  | delete other =>
    by_cases here : id = other
    · exact .inl (by rw [here])
    · exact .inr ⟨v, by simpa [ContextCall.on, drop_apply, here] using found, rfl⟩
  | get h => exact .inr ⟨v, found, rfl⟩
  | set h u => exact .inr (kind_replace (fun _ _ => typed) found)
  | update h next => exact .inr (kind_replace typed found)

/-- A context that was missing is there when it has been made. -/
theorem created_of_absent {call : ContextCall} (absent : m id = none)
    (found : (call.on m).2 id = some v) : call = .create id v := by
  have nothing {γ : Prop} (found : m id = some v) : γ := nomatch absent.symm.trans found
  cases call with
  | create other u =>
    rw [ContextCall.on] at found
    cases there : m other with
    | none =>
      rw [there] at found
      by_cases here : id = other
      · subst here
        obtain rfl : u = v := by simpa [put_apply] using found
        rfl
      · exact nothing (by simpa [put_apply, here] using found)
    | some x =>
      rw [there] at found
      exact nothing found
  | find other kind => exact nothing found
  | delete other =>
    have kept : (if id = other then none else m id) = some v :=
      (drop_apply m other id).symm.trans found
    split at kept
    · cases kept
    · exact nothing kept
  | get h => exact nothing found
  | set h u => cases (replace_of_absent absent).symm.trans found
  | update h next => cases (replace_of_absent absent).symm.trans found

/-- The context is deleted and later made with a value of the kind. -/
def Remade (id : String) (kind : ValueKind) (cs : List ContextCall) : Prop :=
  ∃ before after x, cs = before ++ .delete id :: after ∧ .create id x ∈ after ∧ x.kind = kind

theorem Remade.cons {kind : ValueKind} {cs : List ContextCall} (h : Remade id kind cs)
    (call : ContextCall) : Remade id kind (call :: cs) := by
  obtain ⟨before, after, x, rfl, made, kind⟩ := h
  exact ⟨call :: before, after, x, rfl, made, kind⟩

theorem Remade.created {kind : ValueKind} {cs : List ContextCall} (h : Remade id kind cs) :
    ∃ x, .create id x ∈ cs ∧ x.kind = kind := by
  obtain ⟨before, after, x, rfl, made, kind⟩ := h
  exact ⟨x, by simp [made], kind⟩

theorem kind_run {cs : List ContextCall} (typed : ∀ call ∈ cs, call.Typed) {v' : Value}
    (found' : m.after cs id = some v') :
    (m id = none → ∃ x, .create id x ∈ cs ∧ x.kind = v'.kind) ∧
      ∀ v, m id = some v → v.kind = v'.kind ∨ Remade id v'.kind cs := by
  induction cs generalizing m with
  | nil =>
    constructor
    · intro absent
      cases absent.symm.trans found'
    · intro v found
      obtain rfl := Option.some.inj (found.symm.trans found')
      exact .inl rfl
  | cons call cs ih =>
    obtain ⟨first, rest⟩ := List.forall_mem_cons.1 typed
    obtain ⟨absent', present'⟩ := ih rest found'
    constructor
    · intro absent
      cases now : (call.on m).2 id with
      | none =>
        obtain ⟨x, made, kind⟩ := absent' now
        exact ⟨x, List.mem_cons_of_mem _ made, kind⟩
      | some x =>
        obtain rfl := created_of_absent absent now
        rcases present' x now with same | remade
        · exact ⟨x, List.mem_cons_self, same⟩
        · exact (remade.cons _).created
    · intro v found
      rcases kind_kept first found with rfl | ⟨x, now, kind⟩
      · obtain ⟨y, made, kind⟩ := absent' (by simp [ContextCall.on, drop_apply])
        exact .inr ⟨[], cs, y, rfl, made, kind⟩
      · rw [← kind]
        exact (present' x now).imp_right fun remade => remade.cons call

/-- The kind of a value changes only when its context is deleted and made again. -/
theorem kind_changed {cs : List ContextCall} (typed : ∀ call ∈ cs, call.Typed) {v' : Value}
    (found : m id = some v) (found' : m.after cs id = some v') (changed : v'.kind ≠ v.kind) :
    Remade id v'.kind cs :=
  ((kind_run typed found').2 v found).resolve_left changed.symm

end Holdings

end PageTree.Live
