/-
  PageTree/Proofs/Live/Setters.lean
  =================================
  **Setters that outlive their component.**

  A setter names its state by the id of the component and a position.  When the
  hook record it was made from is destroyed, the name means nothing, and the
  setter does nothing.  When a component is made anew under the id, the name
  means a state of the new component: records are told apart by their numbers,
  but a setter does not carry one.

    * `dead_setter_inert_iff`: a setter whose record was destroyed is without
      effect exactly as long as no record made later holds, at its position, a
      state that the write would change.
    * `dead_setter_writes_again`: it does change such a state.
-/
import PageTree.Proofs.Live.Records

namespace PageTree.Live

variable {P : Callbacks} {μ : Type}

/-! ### Writing -/

/-- Whatever callbacks there are, the answer is that nothing changed, and nothing
    has changed. -/
def Inert (act : Calls P μ → Act P μ Bool) (w : World P μ) : Prop :=
  ∀ calls, act calls w = some (false, w)

theorem store_of_unchanged {c : Client P} {s : Setter} {u : Value}
    (h : ∀ slot, c.stateSlot? s = some slot → slot.value.same u) : c.store s u = (none, c) := by
  unfold Client.store
  split
  · rfl
  · next slot hs => rw [if_pos (.inr (h slot hs))]

theorem store_of_changed {c : Client P} {s : Setter} {u : Value} {slot : StateSlot P}
    (hs : c.stateSlot? s = some slot) (kind : u.kind = s.kind) (changed : ¬ slot.value.same u) :
    c.store s u
      = (some (slot.listeners.map (·.2)), c.modifyState s fun slot => { slot with value := u }) := by
  have ne : ¬ (u.kind ≠ s.kind ∨ slot.value.same u) := by simp [kind, changed]
  simp only [Client.store, hs, if_neg ne]

/-- Nobody is called and nothing moves when nothing is stored. -/
theorem write_of_store_none {calls : Calls P μ} {s : Setter} {u : Value} {w : World P μ}
    (h : w.client.store s u = (none, w.client)) : calls.write s u w = some (false, w) := by
  have stored : (Act.through (·.store s u) : Act P μ _) w = some (none, w) := by
    have step : (Act.through (·.store s u) : Act P μ _) w
        = some ((w.client.store s u).1, { w with client := (w.client.store s u).2 }) := rfl
    rw [step, h]
  exact Act.bind_eq_some.2 ⟨none, w, stored, rfl⟩

/-- A write that stores something never answers that nothing changed. -/
theorem write_of_store_some {calls : Calls P μ} {s : Setter} {u : Value} {w w' : World P μ}
    {listeners : List P.Listener} {b : Bool} (h : (w.client.store s u).1 = some listeners)
    (answer : calls.write s u w = some (b, w')) : b = true := by
  obtain ⟨stored, w₁, h₁, answer⟩ := Act.bind_eq_some.1 answer
  obtain ⟨rfl, rfl⟩ : (w.client.store s u).1 = stored ∧ _ = w₁ := by
    simpa using Option.some.inj h₁
  rw [h] at answer
  obtain ⟨_, w₂, _, answer⟩ := Act.bind_eq_some.1 answer
  obtain ⟨_, w₃, _, answer⟩ := Act.bind_eq_some.1 answer
  exact (congrArg Prod.fst (Option.some.inj answer)).symm

theorem inert_write_iff {s : Setter} {u : Value} {w : World P μ} (kind : u.kind = s.kind) :
    Inert (fun calls => calls.write s u) w
      ↔ ∀ slot, w.client.stateSlot? s = some slot → slot.value.same u := by
  constructor
  · intro inert slot hs
    by_contra changed
    have stored := congrArg Prod.fst (store_of_changed hs kind changed)
    have answer := write_of_store_some stored (inert Calls.none)
    cases answer
  · intro unchanged calls
    exact write_of_store_none (store_of_unchanged unchanged)

/-- An update reads the state and writes what follows from it. -/
theorem run_update (calls : Calls P μ) (scope : Option String) (s : Setter) (f : Value → Value)
    (w : World P μ) :
    (Routine.update s f).run (calls.serve scope) w = match w.client.read s with
      | none => some (false, w)
      | some before => calls.write s (f before) w := by
  have step : (Routine.update s f).run (calls.serve scope) w = (match w.client.read s with
      | none => pure false
      | some before => Routine.request (.write s (f before)) :
        Routine P μ Bool).run (calls.serve scope) w := rfl
  rw [step]
  cases w.client.read s with
  | none => rfl
  | some before => exact congrFun (bind_pure (calls.write s (f before))) w

theorem inert_update_iff {s : Setter} {f : Value → Value} {scope : Option String} {w : World P μ}
    (kind : ∀ y, y.kind = s.kind → (f y).kind = s.kind) :
    Inert (fun calls => (Routine.update s f).run (calls.serve scope)) w
      ↔ ∀ slot, w.client.stateSlot? s = some slot → slot.value.kind = s.kind →
        slot.value.same (f slot.value) := by
  constructor
  · intro inert slot hs hk
    have read : w.client.read s = some slot.value := by simp [Client.read, hs, hk]
    have writes : Inert (fun calls => calls.write s (f slot.value)) w := by
      intro calls
      have answer : (Routine.update s f).run (calls.serve scope) w = some (false, w) :=
        inert calls
      rw [run_update, read] at answer
      exact answer
    exact (inert_write_iff (kind _ hk)).1 writes slot hs
  · intro unchanged calls
    show (Routine.update s f).run (calls.serve scope) w = _
    rw [run_update]
    cases hr : w.client.read s with
    | none => rfl
    | some before =>
      obtain ⟨slot, hs, hk⟩ := Option.bind_eq_some_iff.1 hr
      split at hk
      · next hk' =>
        obtain rfl := Option.some.inj hk
        refine (inert_write_iff (kind _ hk')).2 ?_ calls
        intro other ho
        obtain rfl : slot = other := Option.some.inj (hs.symm.trans ho)
        exact unchanged slot hs hk'
      · cases hk

/-! ### The record of a setter -/

/-- A setter is handed out by a component that has a record. -/
theorem setter_of_useState {c c' : Client P} {id : String} {v x : Value} {s : Setter}
    (h : c.useState id v = (.ok (x, s), c')) :
    s.component = id ∧ s.kind = v.kind ∧ ∃ r, c'.records.get? id = some r := by
  unfold Client.useState at h
  dsimp only at h
  split at h
  · obtain ⟨handed, rfl⟩ := Prod.mk.inj h
    obtain ⟨_, rfl⟩ := Prod.mk.inj (Except.ok.inj handed)
    refine ⟨rfl, rfl, ?_⟩
    simp [Client.modifyRecord, Client.claim, OrderedMap.get?_modify]
  · cases (Prod.mk.inj h).1

/-- The record of a component is destroyed: the component is forgotten, or
    everything is. -/
def Destroys (id : String) (c c' : Client P) : Prop := c' = (c.forget id).2 ∨ c' = c.clear.2

theorem Destroys.gone {id : String} {c c' : Client P} (h : Destroys id c c')
    (numbered : Numbered c) : c'.records.get? id = none := by
  rcases h with rfl | rfl
  · have nodup := numbered.keys
    rw [tags, List.map_map] at nodup
    exact OrderedMap.get?_erase_self id nodup
  · rfl

theorem Destroys.path {id : String} {c c' : Client P} (h : Destroys id c c') : Path c c' := by
  have forgotten := Path.take (Path.refl c) (Take.forget id)
  have cleared := Path.take (Path.refl c) Take.clear
  rcases h with rfl | rfl
  · exact forgotten
  · exact cleared

/-- A state that a setter made from the client `c` finds in a record that its
    component has got since. -/
def Reused (c c' : Client P) (s : Setter) (slot : StateSlot P) : Prop :=
  ∃ r, c'.records.get? s.component = some r ∧ (c.recordOf s.component).number < r.number ∧
    r.states.get? s.index = some slot

/-- After the record of a setter was destroyed, the setter is without effect
    exactly as long as no later record of the component holds a state at its
    position that the write would change.  Such a state it changes, whatever it
    holds, and tells its listeners. -/
theorem dead_setter_inert_iff {document : Document} {c₀ c₁ c₂ c₃ : Client P} {w : World P μ}
    {id : String} {v x : Value} {s : Setter} (before : Path (Client.new document) c₀)
    (made : c₀.useState id v = (.ok (x, s), c₁)) (meanwhile : Path c₁ c₂)
    (destroyed : Destroys id c₂ c₃) (after : Path c₃ w.client) {u : Value}
    (hu : u.kind = v.kind) {f : Value → Value} (hf : ∀ y, y.kind = v.kind → (f y).kind = v.kind)
    (scope : Option String) :
    (Inert (fun calls => calls.write s u) w
        ↔ ∀ slot, Reused c₁ w.client s slot → slot.value.same u) ∧
      (Inert (fun calls => (Routine.update s f).run (calls.serve scope)) w
        ↔ ∀ slot, Reused c₁ w.client s slot → slot.value.kind = v.kind →
          slot.value.same (f slot.value)) ∧
      (∀ slot, Reused c₁ w.client s slot → ¬ slot.value.same u →
        w.client.store s u = (some (slot.listeners.map (·.2)),
          w.client.modifyState s fun slot => { slot with value := u })) := by
  obtain ⟨component, kind, r₁, hr₁⟩ := setter_of_useState made
  have onTheWay : Path (Client.new document) c₁ := by
    have step := Change.useState c₀ id v
    rw [made] at step
    exact .change before step
  have gone := destroyed.gone (onTheWay.trans meanwhile).numbered
  have old : (c₁.recordOf s.component).number < c₃.nextRecord := by
    rw [component, recordOf_of_get? hr₁]
    have given := onTheWay.numbered.below _ (mem_tags hr₁)
    exact given.trans_le (meanwhile.trans destroyed.path).succeeds.next
  -- whatever the setter finds now is of a later record
  have found (slot : StateSlot P) :
      w.client.stateSlot? s = some slot ↔ Reused c₁ w.client s slot := by
    constructor
    · intro hs
      obtain ⟨r, hr, hs⟩ := Option.bind_eq_some_iff.1 hs
      rw [← component] at gone
      exact ⟨r, hr, old.trans_le (after.later gone hr), hs⟩
    · rintro ⟨r, hr, _, hs⟩
      exact Option.bind_eq_some_iff.2 ⟨r, hr, hs⟩
  rw [← kind] at hu hf
  refine ⟨?_, ?_, ?_⟩
  · rw [inert_write_iff hu]
    simp only [found]
  · rw [inert_update_iff hf]
    simp only [found, kind]
  · intro slot hs changed
    exact store_of_changed ((found slot).2 hs) hu changed

/-! ### A setter comes to life again -/

/-- Callbacks that have nothing to say. -/
abbrev quiet : Callbacks where
  Body := Unit
  Effect := Unit
  Cleanup := Unit
  Listener := Unit
  View := Unit

/-- The client when a component calls its first hook. -/
def firstPass : Client quiet := ((Client.new {}).beginPass "a").2

/-- The client when the component has been forgotten. -/
def forgotten : Client quiet :=
  (((firstPass.useState "a" (.int 0)).2.endPass none).forget "a").2

/-- The client when a component has been rendered anew under the same id. -/
def revived : Client quiet :=
  ((forgotten.beginPass "a").2.useState "a" (.int 0)).2.endPass none

/-- The setter that the first component was given. -/
def oldSetter : Setter := ⟨"a", 0, .int⟩

theorem path_firstPass : Path (Client.new {}) firstPass := .beginPass (.refl _) "a"

theorem path_revived : Path forgotten revived :=
  .endPass (.change (.beginPass (.refl _) "a") (.useState _ "a" (.int 0))) none

theorem useState_firstPass :
    firstPass.useState "a" (.int 0)
      = (.ok (.int 0, oldSetter), (firstPass.useState "a" (.int 0)).2) := by
  rfl

/-- The setter finds the state of the new component: a write of the value there
    is without effect, and no other write is. -/
theorem revived_setter :
    Path (Client.new {}) firstPass ∧
      firstPass.useState "a" (.int 0)
        = (.ok (.int 0, oldSetter), (firstPass.useState "a" (.int 0)).2) ∧
      Destroys "a" ((firstPass.useState "a" (.int 0)).2.endPass none) forgotten ∧
      Path forgotten revived ∧ (Value.int 1).kind = (Value.int 0).kind ∧
      (Inert (fun calls => calls.write oldSetter (.int 1)) (⟨revived, ()⟩ : World quiet Unit)
        ↔ ∀ slot, Reused (firstPass.useState "a" (.int 0)).2 revived oldSetter slot →
          slot.value.same (.int 1)) := by
  have destroyed : Destroys "a" ((firstPass.useState "a" (.int 0)).2.endPass none) forgotten :=
    .inl rfl
  have law := dead_setter_inert_iff (w := (⟨revived, ()⟩ : World quiet Unit))
    (u := .int 1) path_firstPass useState_firstPass (.endPass (.refl _) none) destroyed
    path_revived rfl (fun _ hy => hy) none
  exact ⟨path_firstPass, useState_firstPass, destroyed, path_revived, rfl, law.1⟩

/-- A setter whose record was destroyed may write again. -/
theorem dead_setter_writes_again :
    ¬ ∀ (c₀ c₁ c₂ c₃ : Client quiet) (w : World quiet Unit) (id : String) (v x : Value)
        (s : Setter), Path (Client.new {}) c₀ → c₀.useState id v = (.ok (x, s), c₁) →
        Path c₁ c₂ → Destroys id c₂ c₃ → Path c₃ w.client →
        ∀ u, u.kind = v.kind → Inert (fun calls => calls.write s u) w := by
  intro claim
  have inert := claim firstPass _ _ forgotten ⟨revived, ()⟩ "a" (.int 0) (.int 0) oldSetter
    path_firstPass useState_firstPass (.endPass (.refl _) none) (.inl rfl) path_revived
    (.int 1) rfl
  have same := (inert_write_iff rfl).1 inert { value := .int 0 } rfl
  exact absurd same (by decide)

end PageTree.Live
