/-
  PageTree/Proofs/Live/Remounts.lean
  ==================================
  **Effects of a component that takes the place of another one.**

  When an instance is torn down, its cleanups run.  Its hook record is destroyed if
  no listener is left on its element; otherwise it stays, and its slots go on
  remembering what the last runs depended on.  A component that is mounted there
  next reaches these slots, and an effect that depends on the same as the effect
  of the instance that is gone is left out, although that one was undone.

    * `Path.remembers`: what a slot remembers changes only when a run ends in it.
    * `skips_iff_stale`: an effect that has not run since is left out if and only
      if it meets such a slot.
    * `remounted_effect_skipped_iff`: every other effect of the first pass runs
      before the mount is over.
    * `effect_left_out_after_remount`: a component that comes back without its
      effect.
-/
import PageTree.Proofs.Live.Inertness
import PageTree.Proofs.Live.Schedules
import PageTree.Proofs.Live.Setters

namespace PageTree.Live

variable {P : Callbacks} {μ : Type}

/-! ### What slots remember -/

/-- What the last run of an effect of the record depended on. -/
def HookRecord.depsAt (r : HookRecord P) (k : Nat) : Option Deps :=
  (r.effects.get? k).bind (·.deps)

/-- None of the events is the end of a run in the slot. -/
def Spared (s : SlotName) (es : List (Event P)) : Prop := ∀ found k, .ran s found k ∉ es

theorem Spared.append_iff {s : SlotName} {es fs : List (Event P)} :
    Spared s (es ++ fs) ↔ Spared s es ∧ Spared s fs := by
  simp only [Spared, List.mem_append, not_or]
  exact ⟨fun h => ⟨fun f k => (h f k).1, fun f k => (h f k).2⟩, fun h f k => ⟨h.1 f k, h.2 f k⟩⟩

/-- A slot remembers: as long as no run in it ends, what is found in it later was
    there before, unless its record was made in between and knows of no run. -/
structure Remembers (id : String) (s : SlotName) (c c' : Client P) : Prop where
  next : c.nextRecord ≤ c'.nextRecord
  slot : ∃ recent, c'.history = recent ++ c.history ∧ (Spared s recent →
    ∀ r', c'.records.get? id = some r' → r'.number = s.record →
      (∃ r, c.records.get? id = some r ∧ r.number = s.record ∧
        r'.depsAt s.index = r.depsAt s.index) ∨
      c.nextRecord ≤ s.record ∧ r'.depsAt s.index = none)

namespace Remembers

variable {id : String} {s : SlotName} {c c' c'' : Client P}

theorem trans (h : Remembers id s c c') (h' : Remembers id s c' c'') : Remembers id s c c'' := by
  obtain ⟨next, first, history, kept⟩ := h
  obtain ⟨next', second, history', kept'⟩ := h'
  refine ⟨next.trans next', second ++ first, ?_, ?_⟩
  · rw [history', history, List.append_assoc]
  · intro spared r'' found number
    obtain ⟨spared', spared⟩ := Spared.append_iff.1 spared
    rcases kept' spared' r'' found number with ⟨r', found', number', same⟩ | ⟨new, unknown⟩
    · rw [same]
      exact kept spared r' found' number'
    · exact .inr ⟨next.trans new, unknown⟩

/-- Whatever is found was found before, in the same record. -/
theorem of_found (next : c'.nextRecord = c.nextRecord) (recent : List (Event P))
    (history : c'.history = recent ++ c.history)
    (kept : Spared s recent → ∀ r', c'.records.get? id = some r' → ∃ r,
      c.records.get? id = some r ∧ r.number = r'.number ∧
        (r'.number = s.record → r'.depsAt s.index = r.depsAt s.index)) :
    Remembers id s c c' := by
  refine ⟨next.ge, recent, history, fun spared r' found number => .inl ?_⟩
  obtain ⟨r, before, same, deps⟩ := kept spared r' found
  exact ⟨r, before, same.trans number, deps number⟩

theorem of_records (records : c'.records = c.records) (next : c'.nextRecord = c.nextRecord)
    (recent : List (Event P)) (history : c'.history = recent ++ c.history) :
    Remembers id s c c' := by
  refine of_found next recent history fun _ r' found => ⟨r', ?_, rfl, fun _ => rfl⟩
  rw [← records, found]

theorem refl (c : Client P) : Remembers id s c c := of_records rfl rfl [] rfl

theorem of_modify {other : String} {f : HookRecord P → HookRecord P}
    (records : c'.records = c.records.modify other f) (next : c'.nextRecord = c.nextRecord)
    (recent : List (Event P)) (history : c'.history = recent ++ c.history)
    (kept : Spared s recent → ∀ r, c.records.get? other = some r → (f r).number = r.number ∧
      ((f r).number = s.record → (f r).depsAt s.index = r.depsAt s.index)) :
    Remembers id s c c' := by
  refine of_found next recent history fun spared r' found => ?_
  rw [records, OrderedMap.get?_modify] at found
  split at found
  · next here =>
    obtain rfl : other = id := by simpa using here
    obtain ⟨r, before, rfl⟩ := Option.map_eq_some_iff.1 found
    obtain ⟨number, deps⟩ := kept spared r before
    exact ⟨r, before, number.symm, deps⟩
  · exact ⟨r', found, rfl, fun _ => rfl⟩

/-- A change that concerns neither numbers nor what runs depended on. -/
theorem of_modify_same {other : String} {f : HookRecord P → HookRecord P}
    (records : c'.records = c.records.modify other f) (next : c'.nextRecord = c.nextRecord)
    (history : c'.history = c.history)
    (kept : ∀ r, c.records.get? other = some r → (f r).number = r.number ∧
      (f r).depsAt = r.depsAt) : Remembers id s c c' :=
  of_modify records next [] history fun _ r found =>
    ⟨(kept r found).1, fun _ => congrFun (kept r found).2 s.index⟩

theorem of_gone (gone : ∀ r', c'.records.get? id = some r' → c.records.get? id = some r')
    (next : c'.nextRecord = c.nextRecord) (history : c'.history = c.history) :
    Remembers id s c c' :=
  of_found next [] history fun _ r' found =>
    ⟨r', gone r' found, rfl, fun _ => rfl⟩

theorem claim (c : Client P) (other : String) : Remembers id s c (c.claim other).2 := by
  have next : c.nextRecord ≤ (c.claim other).2.nextRecord := by
    simp only [Client.claim]
    split <;> omega
  refine ⟨next, [], rfl, fun _ r' found number => ?_⟩
  rw [get?_claim] at found
  split at found
  · next here =>
    subst here
    obtain rfl := Option.some.inj found
    cases before : c.records.get? other with
    | some r =>
      rw [recordOf_of_get? before] at number ⊢
      exact .inl ⟨r, rfl, number, rfl⟩
    | none =>
      -- a record that is made now knows of no run
      have fresh : c.recordOf other = { number := c.nextRecord } := by
        rw [Client.recordOf, before]
        rfl
      rw [fresh] at number ⊢
      exact .inr ⟨number.le, rfl⟩
  · exact .inl ⟨r', found, number, rfl⟩

theorem depsAt_insert_getD (r : HookRecord P) (i : Nat) :
    { r with effects := r.effects.insert i ((r.effects.get? i).getD {}) }.depsAt = r.depsAt := by
  funext k
  simp only [HookRecord.depsAt, Slots.get?_insert, Function.update_apply]
  split
  · next here =>
    rw [here]
    cases r.effects.get? i <;> rfl
  · rfl

theorem of_touch (h : Touch c c') : Remembers id s c c' := by
  induction h with
  | elsewhere records next history => exact of_records records next [] history
  | claim c other => exact claim c other
  | reachState c other i v => exact of_modify_same rfl rfl rfl fun _ _ => ⟨rfl, rfl⟩
  | reachEffect c other i =>
    refine of_modify_same rfl rfl rfl fun r found => ⟨rfl, ?_⟩
    rw [recordOf_of_get? found]
    exact depsAt_insert_getD r i
  | reachCell c other i cell => exact of_modify_same rfl rfl rfl fun _ _ => ⟨rfl, rfl⟩
  | setState c setter f => exact of_modify_same rfl rfl rfl fun _ _ => ⟨rfl, rfl⟩
  | trans _ _ ih ih' => exact ih.trans ih'

theorem depsAt_withoutCleanups (r : HookRecord P) : r.withoutCleanups.depsAt = r.depsAt := by
  funext k
  rw [HookRecord.depsAt, HookRecord.withoutCleanups, Slots.get?_map, Option.bind_map]
  rfl

theorem depsAt_modify_of_ne {i k : Nat} (ne : i ≠ k) (r : HookRecord P)
    (f : EffectSlot P → EffectSlot P) :
    { r with effects := r.effects.modify i f }.depsAt k = r.depsAt k := by
  simp only [HookRecord.depsAt, Slots.get?_modify, if_neg ne]

/-- The end of a run is noted for the slot whose memory changes. -/
theorem settleEffect (c : Client P) (e : PendingEffect P) (k : Option P.Cleanup) :
    Remembers id s c (c.settleEffect e k).2 := by
  unfold Client.settleEffect
  split
  · next slot there =>
    obtain ⟨r, found, there⟩ := Option.bind_eq_some_iff.1 there
    obtain ⟨_, _, rfl⟩ := Option.map_eq_some_iff.1 there
    refine of_modify rfl rfl [_] rfl fun spared r' found' => ⟨rfl, fun number => ?_⟩
    obtain rfl : r = r' := Option.some.inj (found.symm.trans found')
    refine depsAt_modify_of_ne (fun same => ?_) r _
    obtain rfl : s = ⟨r.number, e.index⟩ := by
      rw [same, show r.number = s.record from number]
    exact spared _ _ (List.mem_singleton.2 rfl)
  · exact of_records rfl rfl [_] rfl

theorem of_take (numbered : Numbered c) {take : Client P → List (Due P) × Client P}
    (h : Take take) : Remembers id s c (take c).2 := by
  cases h with
  | takeCleanup e =>
    refine of_modify_same rfl rfl rfl fun r _ => ⟨rfl, funext fun k => ?_⟩
    simp only [HookRecord.depsAt, Slots.get?_modify]
    split
    · cases r.effects.get? k <;> rfl
    · rfl
  | settleEffect e k => exact settleEffect c e k
  | forget other =>
    refine of_gone (fun r' found => ?_) rfl rfl
    by_cases here : other = id
    · subst here
      have gone : (c.forget other).2.records.get? other = none :=
        Destroys.gone (.inl rfl) numbered
      cases gone.symm.trans found
    · rwa [show (c.forget other).2.records = c.records.erase other from rfl,
        OrderedMap.get?_erase_of_ne here] at found
  | detach n i =>
    obtain ⟨_, records, next, history, _⟩ := detach_eq c n i
    exact of_modify_same records next history fun r _ => ⟨rfl, depsAt_withoutCleanups r⟩
  | clear => exact of_gone (fun _ found => nomatch found) rfl rfl

end Remembers

theorem Path.remembers {document : Document} {c c' : Client P}
    (reached : Path (Client.new document) c) (h : Path c c') (id : String) (s : SlotName) :
    Remembers id s c c' := by
  induction h with
  | refl => exact .refl _
  | change _ step ih => exact ih.trans (.of_touch step.touch)
  | beginPass _ other ih => exact ih.trans (.of_modify_same rfl rfl rfl fun _ _ => ⟨rfl, rfl⟩)
  | endPass _ previous ih => exact ih.trans (.of_records rfl rfl [] rfl)
  | take way step ih => exact ih.trans (.of_take (reached.trans way).numbered step)
  | note _ e ih => exact ih.trans (.of_records rfl rfl [e] rfl)
  | @settle c' _ ih =>
    refine ih.trans ?_
    unfold Client.settle
    split
    · exact .of_gone (fun _ found => nomatch found) rfl rfl
    · exact .refl _

/-! ### Whether an effect waits -/

section

variable {c₀ c : Client P} {id : String} {deps : Option Deps} {e : P.Effect}

/-- The slot that the next hook call of a component reaches. -/
def Client.slotHere (c : Client P) (id : String) : SlotName :=
  ⟨(c.recordOf id).number, (c.recordOf id).cursor⟩

/-- The effect that a call of the hook queues, unless it leaves it out. -/
def Client.queuedBy (c : Client P) (id : String) (deps : Option Deps) (e : P.Effect) :
    PendingEffect P :=
  ⟨id, (c.recordOf id).cursor, e, deps⟩

/-- A call of the hook of effects leaves the effect out of its pass. -/
def Skips (c : Client P) (id : String) (deps : Option Deps) (e : P.Effect) : Prop :=
  (c.useEffect id deps e).pending = c.pending

/-- No run in the slot has ended between the two. -/
def NoRunSince (s : SlotName) (c c' : Client P) : Prop :=
  ∃ recent, c'.history = recent ++ c.history ∧ Spared s recent

/-- The slot that is reached is one of the record that the component had earlier, and
    the last run before that depended on what the effect depends on now. -/
def Stale (c₀ c : Client P) (id : String) (deps : Option Deps) : Prop :=
  ∃ r before now, c₀.records.get? id = some r ∧ r.number = (c.recordOf id).number ∧
    r.depsAt (c.recordOf id).cursor = some before ∧ deps = some now ∧ before.same now

theorem pending_useEffect :
    (c.useEffect id deps e).pending = c.pending
      ++ if Deps.isDue deps ((c.recordOf id).depsAt (c.recordOf id).cursor)
          then [c.queuedBy id deps e] else [] := by
  obtain ⟨-, -, pending, -⟩ := useEffect_spec c id deps e rfl rfl
  have same : (((c.recordOf id).effects.get? (c.recordOf id).cursor).getD {}).deps
      = (c.recordOf id).depsAt (c.recordOf id).cursor := by
    rw [HookRecord.depsAt]
    cases (c.recordOf id).effects.get? (c.recordOf id).cursor <;> rfl
  rw [pending, same]
  rfl

theorem skips_iff :
    Skips c id deps e ↔ ∃ before now, (c.recordOf id).depsAt (c.recordOf id).cursor = some before ∧
      deps = some now ∧ before.same now := by
  rw [Skips, pending_useEffect, List.append_right_eq_self]
  cases (c.recordOf id).depsAt (c.recordOf id).cursor <;> cases deps <;> simp [Deps.isDue]

theorem mem_pending_of_not_skips (waits : ¬ Skips c id deps e) :
    c.queuedBy id deps e ∈ (c.useEffect id deps e).pending := by
  rw [Skips, pending_useEffect, List.append_right_eq_self] at waits
  rw [pending_useEffect]
  split
  · exact List.mem_append_right _ (List.mem_singleton.2 rfl)
  · next idle => exact absurd (if_neg idle) waits

/-- **An effect that has not run since** is left out if and only if it meets what a run
    before that has left. -/
theorem skips_iff_stale {document : Document} (reached : Path (Client.new document) c₀)
    (way : Path c₀ c) (idle : NoRunSince (c.slotHere id) c₀ c) :
    Skips c id deps e ↔ Stale c₀ c id deps := by
  obtain ⟨recent, history, spared⟩ := idle
  obtain ⟨next, recent', history', kept⟩ := reached.remembers way id (c.slotHere id)
  obtain rfl : recent' = recent := List.append_cancel_right (history'.symm.trans history)
  have kept := kept spared
  rw [skips_iff]
  constructor
  · rintro ⟨before, now, remembered, given, same⟩
    cases found : c.records.get? id with
    | none =>
      rw [Client.recordOf, found] at remembered
      cases remembered
    | some r' =>
      have here := recordOf_of_get? found
      have number : r'.number = (c.recordOf id).number := by rw [here]
      rcases kept r' found number with ⟨r, old, number, deps⟩ | ⟨_, unknown⟩
      · refine ⟨r, before, now, old, number, ?_, given, same⟩
        exact (deps.symm.trans (congrArg (HookRecord.depsAt · _) here.symm)).trans remembered
      · rw [← here] at unknown
        cases unknown.symm.trans remembered
  · rintro ⟨r, before, now, old, number, remembered, given, same⟩
    have made : (c.recordOf id).number < c₀.nextRecord := by
      rw [← number]
      exact reached.numbered.below _ (mem_tags old)
    refine ⟨before, now, ?_, given, same⟩
    cases found : c.records.get? id with
    | none =>
      rw [Client.recordOf, found] at made
      exact absurd made (not_lt.2 next)
    | some r' =>
      have here := recordOf_of_get? found
      have number' : r'.number = (c.recordOf id).number := by rw [here]
      rcases kept r' found number' with ⟨r₂, old₂, _, deps⟩ | ⟨new, _⟩
      · obtain rfl : r = r₂ := Option.some.inj (old.symm.trans old₂)
        exact ((congrArg (HookRecord.depsAt · _) here).trans deps).trans remembered
      · exact absurd made (not_lt.2 new)

end

/-! ### What becomes of an effect that waits -/

/-- A waiting effect is taken out to be run or dropped, or its component is forgotten,
    or everything is. -/
inductive Withdraws (e : PendingEffect P) : Client P → Client P → Prop
  | takes (c) : Withdraws e c (c.takePending e.component).2
  | forgets (c) : Withdraws e c (c.forget e.component).2
  | clears (c) : Withdraws e c c.clear.2
  | releases {c} (given_up : c.abandoned = true) : Withdraws e c c.settle

theorem mem_takePending {c : Client P} {e : PendingEffect P} {id : String} :
    e ∈ (c.takePending id).2.pending ↔ e ∈ c.pending ∧ e.component ≠ id := by
  simp [Client.takePending, List.partition_eq_filter_filter]

section

variable {c c' : Client P} {e : PendingEffect P} (queued : e ∈ c.pending)

include queued

theorem Change.waits (h : Change c c') : e ∈ c'.pending ∨ Withdraws e c c' := by
  cases h with
  | takePending id =>
    by_cases ours : e.component = id
    · exact .inr (ours ▸ .takes c)
    · exact .inl (mem_takePending.2 ⟨queued, ours⟩)
  | useState id v =>
    rw [(useState_records c id v).1]
    exact .inl queued
  | useCell id v =>
    unfold Client.useCell
    dsimp only
    split
    · split <;> exact .inl queued
    · exact .inl queued
  | useEffect id deps f =>
    rw [pending_useEffect]
    exact .inl (List.mem_append_left _ queued)
  | store s v =>
    unfold Client.store
    split
    · exact .inl queued
    · split <;> exact .inl queued
  | writeCell r v =>
    unfold Client.writeCell
    split <;> exact .inl queued
  | writeContext h v =>
    unfold Client.writeContext
    split
    · exact .inl queued
    · split <;> exact .inl queued
  | findRoute id path =>
    unfold Client.findRoute
    split <;> exact .inl queued
  | beginRender n =>
    rcases beginRender_eq c n with same | begun
    · rw [same]
      exact .inl queued
    · rw [begun]
      exact .inl queued
  | endSubscription n =>
    rcases endSubscription_eq c n with same | ⟨i, l, _, _, ended⟩
    · rw [same]
      exact .inl queued
    · rw [ended]
      exact .inl queued
  | _ => exact .inl queued

theorem Take.waits {take : Client P → List (Due P) × Client P} (h : Take take) :
    e ∈ (take c).2.pending ∨ Withdraws e c (take c).2 := by
  cases h with
  | takeCleanup f => exact .inl queued
  | settleEffect f k =>
    simp only [Client.settleEffect]
    split <;> exact .inl queued
  | forget id =>
    by_cases ours : e.component = id
    · exact .inr (ours ▸ .forgets c)
    · exact .inl (mem_takePending.2 ⟨queued, ours⟩)
  | detach n i =>
    refine .inl ?_
    simp only [Client.detach]
    split <;> exact queued
  | clear => exact .inr (.clears c)

/-- An effect waits until it is withdrawn. -/
theorem Path.waits (way : Path c c') :
    e ∈ c'.pending ∨ ∃ c₁ c₂, Path c c₁ ∧ Withdraws e c₁ c₂ ∧ Path c₂ c' := by
  have further {c' c'' : Client P} (way : Path c c') (step : Path c' c'')
      (here : e ∈ c'.pending → e ∈ c''.pending ∨ Withdraws e c' c'')
      (before : e ∈ c'.pending ∨ ∃ c₁ c₂, Path c c₁ ∧ Withdraws e c₁ c₂ ∧ Path c₂ c') :
      e ∈ c''.pending ∨ ∃ c₁ c₂, Path c c₁ ∧ Withdraws e c₁ c₂ ∧ Path c₂ c'' := by
    rcases before with waits | ⟨c₁, c₂, first, gone, last⟩
    · rcases here waits with waits | gone
      · exact .inl waits
      · exact .inr ⟨c', c'', way, gone, .refl _⟩
    · exact .inr ⟨c₁, c₂, first, gone, last.trans step⟩
  induction way with
  | refl => exact .inl queued
  | change way step ih =>
    exact further way (.change (.refl _) step) (fun waits => step.waits waits) ih
  | beginPass way id ih => exact further way (.beginPass (.refl _) id) .inl ih
  | endPass way previous ih => exact further way (.endPass (.refl _) previous) .inl ih
  | take way step ih => exact further way (.take (.refl _) step) (fun waits => step.waits waits) ih
  | note way f ih => exact further way (.note (.refl _) f) .inl ih
  | @settle c' way ih =>
    refine further way (.settle (.refl _)) (fun waits => ?_) ih
    cases given_up : c'.abandoned with
    | true => exact .inr (.releases given_up)
    | false =>
      rw [Client.settle, given_up]
      exact .inl waits

end

/-- A flush runs the effect when its turn comes, after those that were queued before it
    and before those that were queued after it. -/
def RunsAtFlush (calls : Calls P μ) (e : PendingEffect P) (w w' : World P μ) : Prop :=
  ∃ before after v v', (w.client.takePending e.component).1 = before ++ e :: after ∧
    before.forM calls.runEffect { w with client := (w.client.takePending e.component).2 }
      = some ((), v) ∧
    calls.runEffect e v = some ((), v') ∧ after.forM calls.runEffect v' = some ((), w')

/-- A flush runs every effect of its component that waits. -/
theorem runsAtFlush {calls : Calls P μ} {e : PendingEffect P} {w w' : World P μ}
    (flushed : calls.flush e.component w = some ((), w')) (waits : e ∈ w.client.pending) :
    RunsAtFlush calls e w w' := by
  have queued : e ∈ (w.client.takePending e.component).1 := by
    simpa [Client.takePending, List.partition_eq_filter_filter] using waits
  obtain ⟨before, after, split⟩ := List.append_of_mem queued
  unfold Calls.flush at flushed
  rw [Act.through_bind, split] at flushed
  have turns : (before ++ e :: after).forM calls.runEffect
      = before.forM calls.runEffect >>= fun _ => (e :: after).forM calls.runEffect :=
    List.forM_append
  rw [turns] at flushed
  obtain ⟨_, v, first, flushed⟩ := Act.bind_eq_some.1 flushed
  obtain ⟨_, v', ran, last⟩ := Act.bind_eq_some.1 flushed
  exact ⟨before, after, v, v', split, first, ran, last⟩

/-! ### Coming and going -/

/-- When the subscription of a stopped instance ends, a listener of its element is
    left. -/
def ListenerLeft (calls : Calls P μ) (n : Nat) (i : Instance P) (w : World P μ) : Prop :=
  ∃ w', calls.undoAll (·.detach n i) w = some ((), w') ∧ (w'.client.endSubscription n).1 = false

/-- If no listener is left, the component is forgotten. -/
theorem tearDown_forgets {calls : Calls P μ} (callbacks : calls.Move Path)
    {document : Document} {n : Nat} {i : Instance P} {w w' : World P μ}
    (reached : Path (Client.new document) w.client) (found : w.client.instance? n = some i)
    (torn : calls.tearDown n w = some ((), w')) (last : ¬ ListenerLeft calls n i w) :
    ∃ c, Path w.client c ∧ c.records.get? i.element = none ∧ Path c w'.client := by
  unfold Calls.tearDown at torn
  rw [Act.look_bind, found] at torn
  obtain ⟨_, w₁, stopped, torn⟩ := Act.bind_eq_some.1 torn
  rw [Act.through_bind] at torn
  have way₁ : Path w.client w₁.client :=
    pathLaw.take calls (.detach n i) callbacks.cleanup _ _ _ stopped
  have way₂ : Path w.client (w₁.client.endSubscription n).2 :=
    .change way₁ (.endSubscription w₁.client n)
  cases ended : (w₁.client.endSubscription n).1 with
  | false => exact absurd ⟨w₁, stopped, ended⟩ last
  | true =>
    rw [ended] at torn
    let c := ((w₁.client.endSubscription n).2.forget i.element).2
    have forgotten : Destroys i.element (w₁.client.endSubscription n).2 c := .inl rfl
    have rest : Path c w'.client :=
      pathLaw.toComposes.moves_forM_undo (fun c _ => .note (.refl c) _) callbacks.cleanup
        _ _ _ _ torn
    exact ⟨c, way₂.trans forgotten.path, forgotten.gone (reached.trans way₂).numbered, rest⟩

/-- The part of a mount up to the end of the first pass. -/
def Calls.firstPass (calls : Calls P μ) (id : String) (body : P.Body) :
    Act P μ (Except Fault String) := do
  calls.unmountElement id
  let n ← Act.through (·.addInstance id body)
  let _ ← Act.through (·.beginRender n)
  calls.runPass id body

/-- A render that succeeds ends with the effects of its pass. -/
theorem renderInstance_flushes {calls : Calls P μ} {n : Nat} {i : Instance P} {w w' : World P μ}
    (begun : (w.client.beginRender n).1 = some i)
    (rendered : calls.renderInstance n w = some (.ok (), w')) :
    ∃ html w₁, calls.runPass i.element i.body { w with client := (w.client.beginRender n).2 }
        = some (.ok html, w₁) ∧ calls.flush i.element (w₁.written n i html) = some ((), w') := by
  unfold Calls.renderInstance at rendered
  rw [Act.through_bind, begun] at rendered
  obtain ⟨result, w₁, passed, rendered⟩ := Act.bind_eq_some.1 rendered
  change calls.conclude n i result w₁ = _ at rendered
  cases result with
  | error e => cases Option.some.inj rendered
  | ok html =>
    rw [conclude_ok] at rendered
    split at rendered
    · obtain ⟨_, w₂, flushed, done⟩ := Act.bind_eq_some.1 rendered
      obtain rfl : w₂ = w' := congrArg Prod.snd (Option.some.inj done)
      exact ⟨html, w₁, passed, flushed⟩
    · cases Option.some.inj rendered

/-- The first render of a new instance begins. -/
theorem beginRender_addInstance (c : Client P) (id : String) (body : P.Body) :
    ((c.addInstance id body).2.beginRender c.instances.length).1
      = some { element := id, body, listener := some c.nextListener } := by
  have added := instance?_addInstance c id body c.instances.length
  rw [if_pos rfl] at added
  simp only [Client.beginRender, added, Client.isReachable]
  rfl

/-- A mount that succeeds ends with the effects of its first pass. -/
theorem mount_flushes {calls : Calls P μ} {id : String} {body : P.Body} {m : Nat} {w w' : World P μ}
    (mounted : calls.mount id body w = some (.ok m, w')) :
    ∃ html w₁, calls.firstPass id body w = some (.ok html, w₁) ∧
      ∀ i : Instance P, i.element = id → calls.flush id (w₁.written m i html) = some ((), w') := by
  unfold Calls.mount at mounted
  rw [Act.look_bind] at mounted
  split at mounted
  · cases Option.some.inj mounted
  obtain ⟨_, w₀, vacated, mounted⟩ := Act.bind_eq_some.1 mounted
  rw [Act.through_bind] at mounted
  obtain ⟨result, w₂, rendered, mounted⟩ := Act.bind_eq_some.1 mounted
  cases result with
  | error e =>
    obtain ⟨_, w₃, _, failed⟩ := Act.bind_eq_some.1 mounted
    cases Option.some.inj failed
  | ok _ =>
    obtain ⟨number, rfl⟩ := Prod.mk.inj (Option.some.inj mounted)
    obtain rfl : w₀.client.instances.length = m := Except.ok.inj number
    obtain ⟨html, w₁, passed, flushed⟩ :=
      renderInstance_flushes (beginRender_addInstance w₀.client id body) rendered
    refine ⟨html, w₁, (bind_of_eq_some vacated).trans passed, ?_⟩
    rintro i rfl
    exact flushed

/-- A record that is made after a component is gone has a higher number. -/
theorem Path.recordOf_later {c c' : Client P} (way : Path c c') {id : String}
    (gone : c.records.get? id = none) : c.nextRecord ≤ (c'.recordOf id).number := by
  cases found : c'.records.get? id with
  | none =>
    rw [Client.recordOf, found]
    exact way.succeeds.next
  | some r =>
    rw [recordOf_of_get? found]
    exact way.later gone found

/-- The effect does not wait until the end of the way. -/
def Withdrawn (e : PendingEffect P) (c c' : Client P) : Prop :=
  ∃ c₁ c₂, Path c c₁ ∧ Withdraws e c₁ c₂ ∧ Path c₂ c'

/-- **Effects after a remount.**  An instance is torn down, and later a component is
    mounted on its element.  Of an effect that the component declares in its first
    pass, and that has not run in its slot since:

    It is left out if and only if the slot is one of the instance that is gone and its
    last run depended on the same.  There is such a slot only if a listener of the
    element was left when the subscription of the instance ended.  An effect that is
    not left out waits for the end of the pass, unless it is withdrawn before, and
    runs before the mount is over. -/
theorem remounted_effect_skipped_iff (p : Program P μ) {document : Document} {depth n : Nat}
    {i : Instance P} {w₀ w₁ : World P μ} (reached : Path (Client.new document) w₀.client)
    (found : w₀.client.instance? n = some i)
    (torn : (p.invoke depth).tearDown n w₀ = some ((), w₁)) {nesting m : Nat} {body : P.Body}
    {w w₂ w' : World P μ} {html : String}
    (mounted : (p.invoke nesting).mount i.element body w = some (.ok m, w'))
    (passed : (p.invoke nesting).firstPass i.element body w = some (.ok html, w₂))
    {c : Client P} {deps : Option Deps} {e : P.Effect} (before : Path w₁.client c)
    (after : Path (c.useEffect i.element deps e) w₂.client)
    (idle : NoRunSince (c.slotHere i.element) w₀.client c) :
    (Skips c i.element deps e ↔ Stale w₀.client c i.element deps) ∧
      (Stale w₀.client c i.element deps → ListenerLeft (p.invoke depth) n i w₀) ∧
      (¬ Skips c i.element deps e →
        c.queuedBy i.element deps e ∈ w₂.client.pending ∧
            RunsAtFlush (p.invoke nesting) (c.queuedBy i.element deps e) (w₂.written m i html) w' ∨
          c.queuedBy i.element deps e ∉ w₂.client.pending ∧
            Withdrawn (c.queuedBy i.element deps e) (c.useEffect i.element deps e) w₂.client) := by
  have callbacks := (pathLaw (P := P)).moves_invoke p depth
  have teardown : Path w₀.client w₁.client :=
    pathLaw.regime.tearDown ⟨callbacks, fun _ _ _ _ _ => trivial⟩ n _ _ _ torn
  refine ⟨skips_iff_stale reached (teardown.trans before) idle, ?_, fun waits => ?_⟩
  · rintro ⟨r, _, _, old, number, -⟩
    by_contra last
    obtain ⟨c₁, way, gone, rest⟩ := tearDown_forgets callbacks reached found torn last
    have made : r.number < w₀.client.nextRecord := reached.numbered.below _ (mem_tags old)
    have later := (rest.trans before).recordOf_later gone
    have next := way.succeeds.next
    omega
  · by_cases still : c.queuedBy i.element deps e ∈ w₂.client.pending
    · obtain ⟨_, _, again, flushes⟩ := mount_flushes mounted
      obtain ⟨answer, rfl⟩ := Prod.mk.inj (Option.some.inj (passed.symm.trans again))
      obtain rfl := Except.ok.inj answer
      exact .inl ⟨still, runsAtFlush (flushes i rfl) still⟩
    · exact .inr ⟨still, (Path.waits (mem_pending_of_not_skips waits) after).resolve_left still⟩

/-! ### A component that comes back -/

/-- The body with one effect, which depends on nothing that changes. -/
def oneEffect : List (Option Deps × String) := [(some .unit, "x")]

def vacantPlace : World diary (List String) :=
  ⟨Client.new (Document.ofElements [("a", "")]), []⟩

/-- The world when a component is shown. -/
def shownPlace : World diary (List String) :=
  ((diaryProgram.run 2 (Routine.request (.mount "a" oneEffect)) vacantPlace).getD
    (.ok 0, vacantPlace)).2

/-- The world when it is gone. -/
def leftPlace : World diary (List String) :=
  (((diaryProgram.invoke 2).tearDown 0 shownPlace).getD ((), vacantPlace)).2

/-- The client when the component that takes its place calls its hook. -/
def secondCall : Client diary :=
  (((leftPlace.client.takeMounted "a").2.addInstance "a" oneEffect).2.beginRender 1).2.beginPass "a"
    |>.2

/-- The world when that component is shown. -/
def secondPlace : World diary (List String) :=
  (((diaryProgram.invoke 2).mount "a" oneEffect leftPlace).getD (.ok 0, vacantPlace)).2

theorem path_secondCall : Path leftPlace.client secondCall :=
  .beginPass (.change (.change (.change (.refl _) (.takeMounted _ "a")) (.addInstance _ "a" _))
    (.beginRender _ 1)) "a"

/-- No listener was left, so the effect waits, and it is run. -/
theorem secondCall_waits :
    (diaryProgram.invoke 2).tearDown 0 shownPlace = some ((), leftPlace) ∧
      (diaryProgram.invoke 2).mount "a" oneEffect leftPlace = some (.ok 1, secondPlace) ∧
      ¬ Skips secondCall "a" (some .unit) "x" ∧
      ¬ Stale shownPlace.client secondCall "a" (some .unit) ∧
      (∃ (w₂ : World diary (List String)) (i : Instance diary),
        RunsAtFlush (diaryProgram.invoke 2) (secondCall.queuedBy "a" (some .unit) "x")
          (w₂.written 1 i "") secondPlace) ∧
      secondPlace.memory = ["pass", "run x", "undo x", "pass", "run x"] := by
  have shown : diaryProgram.run 2 (Routine.request (.mount "a" oneEffect)) vacantPlace
      = some (.ok 0, shownPlace) := by
    with_unfolding_all rfl
  have found : shownPlace.client.instance? 0
      = some { element := "a", body := oneEffect, listener := some 0 } := by
    with_unfolding_all rfl
  have torn : (diaryProgram.invoke 2).tearDown 0 shownPlace = some ((), leftPlace) := by
    with_unfolding_all rfl
  have mounted : (diaryProgram.invoke 2).mount "a" oneEffect leftPlace
      = some (.ok 1, secondPlace) := by
    with_unfolding_all rfl
  have passed : (diaryProgram.invoke 2).firstPass "a" oneEffect leftPlace
      = some (.ok "", ⟨(secondCall.useEffect "a" (some .unit) "x").endPass none,
          leftPlace.memory ++ ["pass"]⟩) := by
    with_unfolding_all rfl
  have idle : NoRunSince (secondCall.slotHere "a") shownPlace.client secondCall :=
    ⟨[.undone ⟨some ⟨0, 0⟩, "x"⟩], by with_unfolding_all rfl,
      fun _ _ h => nomatch List.mem_singleton.1 h⟩
  have law := remounted_effect_skipped_iff diaryProgram (Path.of_run shown) found torn mounted
    passed path_secondCall (.endPass (.refl _) none) idle
  have queued : (secondCall.useEffect "a" (some .unit) "x").pending.length = 1
      ∧ secondCall.pending.length = 0 := by
    decide +kernel
  have waits : ¬ Skips secondCall "a" (some .unit) "x" := by
    intro skips
    have same := congrArg List.length skips
    omega
  have runs := (law.2.2 waits).resolve_right fun gone => gone.1 (mem_pending_of_not_skips waits)
  exact ⟨torn, mounted, waits, fun stale => waits (law.1.2 stale), ⟨_, _, runs.2⟩,
    by decide +kernel⟩

/-- Listens to some components; then a component is mounted, unmounted and mounted
    again.  Answers whether both mounts succeeded. -/
def comeBack : List String → Routine diary (List String) Bool
  | id :: ids => do
    let _ ← Routine.request (.subscribe id ())
    comeBack ids
  | [] => do
    match ← Routine.request (.mount "a" oneEffect) with
    | .error _ => return false
    | .ok n =>
      Routine.request (.unmount n)
      match ← Routine.request (.mount "a" oneEffect) with
      | .error _ => return false
      | .ok _ => return true

/-- With a listener on its element the component comes back without its effect: the
    cleanup was run, and the effect is not. -/
theorem effect_left_out_after_remount :
    ¬ ∀ (ids : List String) (w : World diary (List String)),
      diaryProgram.run 2 (comeBack ids) vacantPlace = some (true, w) →
        w.memory = ["pass", "run x", "undo x", "pass", "run x"] := by
  intro claim
  have outcome : (diaryProgram.run 2 (comeBack ["a"]) vacantPlace).map
      (fun a => (a.1, a.2.memory)) = some (true, ["pass", "run x", "undo x", "pass"]) := by
    decide +kernel
  obtain ⟨⟨b, w⟩, ran, answer⟩ := Option.map_eq_some_iff.1 outcome
  obtain ⟨rfl, memory⟩ := Prod.mk.inj answer
  have twice := claim ["a"] w ran
  rw [memory] at twice
  exact absurd twice (by decide)

end PageTree.Live
