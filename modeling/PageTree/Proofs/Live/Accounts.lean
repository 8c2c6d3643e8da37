/-
  PageTree/Proofs/Live/Accounts.lean
  ==================================
  **What becomes of the cleanups that are due at some moment.**

  `Books` says of a whole run that nothing is lost without being overwritten.  The
  same holds of every stretch of a run, whatever is owed elsewhere when it
  begins (`balanced`).  So if the record of a component is gone after the
  stretch, all that was due in it was run or overwritten
  (`Balanced.settled`).
-/
import PageTree.Proofs.Live.Cleanups

namespace PageTree.Live

variable {P : Callbacks} {μ α : Type}

/-! ### Accounts of cleanups -/

/-- What was due and what was returned since was run, or it was overwritten, or it
    is due. -/
def Balanced (c c' : Client P) : Prop :=
  ∃ recent, c'.history = recent ++ c.history ∧
    dues c.records.entries + returned recent
      = invoked recent + overwritten recent + dues c'.records.entries

theorem returned_append (es fs : List (Event P)) :
    returned (es ++ fs) = returned es + returned fs := by
  induction es with
  | nil => simp [returned]
  | cons e es ih => cases e <;> simp [returned, ih, add_assoc]

theorem overwritten_append (es fs : List (Event P)) :
    overwritten (es ++ fs) = overwritten es + overwritten fs := by
  induction es with
  | nil => simp [overwritten]
  | cons e es ih => cases e <;> simp [overwritten, ih, add_assoc]

theorem Spares.balanced {c c' : Client P} (h : Spares c c') : Balanced c c' := by
  refine ⟨[], h.history, ?_⟩
  rw [h.dues]
  simp [returned, invoked, overwritten]

theorem Balanced.trans {c c' c'' : Client P} (h : Balanced c c') (h' : Balanced c' c'') :
    Balanced c c'' := by
  obtain ⟨first, hf, before⟩ := h
  obtain ⟨second, hs, after⟩ := h'
  refine ⟨second ++ first, by rw [hs, hf, List.append_assoc], ?_⟩
  rw [returned_append, invoked_append, overwritten_append]
  calc dues c.records.entries + (returned second + returned first)
      = dues c.records.entries + returned first + returned second := by abel
    _ = invoked first + overwritten first + (dues c'.records.entries + returned second) := by
        rw [before]
        abel
    _ = _ := by
        rw [after]
        abel

/-- What is taken out is accounted for by whoever takes it. -/
theorem Take.balanced {take : Client P → List (Due P) × Client P} (h : Take take) (c : Client P) :
    ∃ recent, (take c).2.history = recent ++ c.history ∧
      dues c.records.entries + returned recent
        = invoked recent + overwritten recent + dues (take c).2.records.entries
          + ((take c).1 : Multiset (Due P)) := by
  cases h with
  | takeCleanup e =>
    refine ⟨[], rfl, ?_⟩
    simp only [returned, invoked, overwritten, add_zero, zero_add]
    cases hs : c.effectSlot? e with
    | none =>
      simp only [Client.takeCleanup, hs, Option.bind_none, Option.toList_none, Multiset.coe_nil,
        add_zero]
      rw [dues_of_effectSlot?_eq_none hs]
    | some s =>
      obtain ⟨others, hd, hf⟩ := dues_of_effectSlot? hs
      have taken : ((c.takeCleanup e).1 : Multiset (Due P)) = debt (some s.1) s.2.cleanup := by
        simp only [Client.takeCleanup, hs, Option.bind_some, debt]
      have left : dues (c.takeCleanup e).2.records.entries = others := by
        rw [Client.takeCleanup, hf, debt_none, zero_add]
      rw [taken, left, hd, add_comm]
  | settleEffect e k =>
    cases hs : c.effectSlot? e with
    | none =>
      refine ⟨[.stray k], by simp only [Client.settleEffect, hs]; rfl, ?_⟩
      simp only [Client.settleEffect, hs, returned, invoked, overwritten, add_zero, zero_add]
      rfl
    | some s =>
      obtain ⟨others, hd, hf⟩ := dues_of_effectSlot? hs
      refine ⟨[.ran s.1 s.2.cleanup k], by simp only [Client.settleEffect, hs]; rfl, ?_⟩
      have stored : dues ((c.note (.ran s.1 s.2.cleanup k)).modifyEffect e
          fun _ => { cleanup := k, deps := e.deps }).records.entries = debt (some s.1) k + others :=
        hf _
      simp only [Client.settleEffect, hs, returned, invoked, overwritten, stored, hd,
        Multiset.coe_nil]
      abel
  | forget id =>
    refine ⟨[], rfl, ?_⟩
    rw [dues_eq_recordOf_add c id]
    simp only [returned, invoked, overwritten, add_zero, zero_add]
    exact add_comm _ _
  | detach n i =>
    obtain ⟨taken, left, _, history, _⟩ := detach_eq c n i
    refine ⟨[], history, ?_⟩
    rw [taken, left, dues_withoutCleanups, dues_eq_recordOf_add c i.element]
    simp only [returned, invoked, overwritten, add_zero, zero_add]
    exact add_comm _ _
  | clear =>
    refine ⟨[], rfl, ?_⟩
    simp only [returned, invoked, overwritten, add_zero, zero_add]
    show dues c.records.entries = 0 + dues c.records.entries
    rw [zero_add]

theorem balanced_undo {calls : Calls P μ} (hk : ∀ k, (calls.cleanup k).Moves Balanced)
    (ds : List (Due P)) {w w' : World P μ} {u : PUnit} (h : ds.forM calls.undo w = some (u, w')) :
    ∃ recent, w'.client.history = recent ++ w.client.history ∧
      dues w.client.records.entries + (ds : Multiset (Due P)) + returned recent
        = invoked recent + overwritten recent + dues w'.client.records.entries := by
  refine Calls.undo_induction (S := fun ds c c' => ∃ recent, c'.history = recent ++ c.history ∧
    dues c.records.entries + (ds : Multiset (Due P)) + returned recent
      = invoked recent + overwritten recent + dues c'.records.entries) hk ?_ ?_ ds h
  · intro c
    exact ⟨[], rfl, by simp [returned, invoked, overwritten]⟩
  · rintro d ds c c' c'' ⟨first, hf, before⟩ ⟨second, hs, after⟩
    refine ⟨second ++ first ++ [.undone d], ?_, ?_⟩
    · rw [hs, hf]
      simp [Client.note]
    · have noted : dues (c.note (.undone d)).records.entries = dues c.records.entries := rfl
      rw [noted] at before
      rw [returned_append, returned_append, invoked_append, invoked_append, overwritten_append,
        overwritten_append]
      simp only [returned, invoked, overwritten, add_zero]
      have listed : ((d :: ds : List (Due P)) : Multiset (Due P)) = {d} + (ds : Multiset (Due P)) := by
        rw [← Multiset.cons_coe, Multiset.singleton_add]
      rw [listed]
      calc dues c.records.entries + ({d} + (ds : Multiset (Due P)))
            + (returned second + returned first)
          = {d} + (ds : Multiset (Due P)) + returned second
            + (dues c.records.entries + returned first) := by abel
        _ = {d} + invoked first + overwritten first
            + (dues c'.records.entries + (ds : Multiset (Due P)) + returned second) := by
          rw [before]
          abel
        _ = _ := by
          rw [after]
          have single : (d ::ₘ 0 : Multiset (Due P)) = {d} := rfl
          rw [single]
          abel

theorem balanced : Law (Balanced (P := P)) where
  refl c := Spares.balanced ⟨rfl, rfl, rfl⟩
  trans := Balanced.trans
  change h := h.spares.balanced
  pass calls id body hr := by
    intro w a w' h
    obtain ⟨w₁, h₁, rfl⟩ := Calls.runPass_eq_some h
    have ends : Spares w₁.client (w₁.client.endPass w.client.current) := ⟨rfl, rfl, rfl⟩
    exact ((Spares.beginPass w.client id).balanced.trans (hr _ _ _ h₁)).trans ends.balanced
  take calls take ht hk := by
    intro w a w' h
    rw [Calls.undoAll_eq] at h
    obtain ⟨first, hf, before⟩ := ht.balanced w.client
    obtain ⟨second, hs, after⟩ := balanced_undo hk _ h
    refine ⟨second ++ first, by rw [hs, hf, List.append_assoc], ?_⟩
    rw [returned_append, invoked_append, overwritten_append]
    calc dues w.client.records.entries + (returned second + returned first)
        = dues w.client.records.entries + returned first + returned second := by abel
      _ = invoked first + overwritten first + (dues (take w.client).2.records.entries
            + ((take w.client).1 : Multiset (Due P)) + returned second) := by
          rw [before]
          abel
      _ = _ := by
          rw [after]
          abel

/-- If no later record takes its number, all that was due in a record was run or
    overwritten. -/
theorem Balanced.settled {c c' : Client P} (h : Balanced c c') (numbered : Numbered c)
    (succeeds : Succeeds c c') {id : String}
    (renewed : ∀ r, c'.records.get? id = some r → c.nextRecord ≤ r.number) :
    ∃ recent, c'.history = recent ++ c.history ∧
      ((c.recordOf id).cleanups : Multiset (Due P)) ≤ invoked recent + overwritten recent := by
  obtain ⟨recent, history, books⟩ := h
  refine ⟨recent, history, ?_⟩
  cases hr : c.records.get? id with
  | none =>
    have fresh : (c.recordOf id).cleanups = [] := by
      rw [Client.recordOf, hr]
      rfl
    rw [fresh]
    exact bot_le
  | some r =>
    rw [recordOf_of_get? hr]
    have known := mem_tags hr
    -- look at what belongs to the record
    let ours (d : Due P) : Prop := d.slot.map (·.record) = some r.number
    have all_ours : ∀ d ∈ (r.cleanups : Multiset (Due P)), ours d := by
      intro d hd
      obtain ⟨e, _, he⟩ := List.mem_filterMap.1 (Multiset.mem_coe.1 hd)
      show d.slot.map (·.record) = _
      rw [dueAt_eq_some he]
      rfl
    have none_left : (dues c'.records.entries).filter ours = 0 := by
      rw [Multiset.filter_eq_nil]
      intro d hd mine
      obtain ⟨⟨key, s⟩, hs, hd⟩ := List.mem_flatMap.1 (Multiset.mem_coe.1 hd)
      obtain ⟨e, _, he⟩ := List.mem_filterMap.1 hd
      have number : s.number = r.number := by
        have slot : d.slot.map (·.record) = some r.number := mine
        rw [dueAt_eq_some he] at slot
        exact Option.some.inj slot
      have tagged : (key, s.number) ∈ tags c' := List.mem_map.2 ⟨_, hs, rfl⟩
      rw [number] at tagged
      rcases succeeds.tag _ tagged with old | new
      · have same := List.inj_on_of_nodup_map numbered.numbers old known rfl
        obtain rfl : key = id := congrArg Prod.fst same
        have keys := (succeeds.numbered numbered).keys
        rw [tags, List.map_map] at keys
        have later := renewed s (OrderedMap.get?_of_mem keys hs)
        rw [number] at later
        exact absurd (numbered.below _ known) (Nat.not_lt.2 later)
      · exact absurd (numbered.below _ known) (Nat.not_lt.2 new)
    have part : (r.cleanups : Multiset (Due P)) ≤ dues c.records.entries := by
      rw [dues_eq_recordOf_add c id, recordOf_of_get? hr]
      exact Multiset.le_add_right _ _
    calc (r.cleanups : Multiset (Due P))
        = (r.cleanups : Multiset (Due P)).filter ours := (Multiset.filter_eq_self.2 all_ours).symm
      _ ≤ (dues c.records.entries + returned recent).filter ours :=
          Multiset.filter_le_filter _ (part.trans (Multiset.le_add_right _ _))
      _ = (invoked recent + overwritten recent).filter ours := by
          rw [books, Multiset.filter_add, none_left, add_zero]
      _ ≤ invoked recent + overwritten recent := Multiset.filter_le _ _

end PageTree.Live
