/-
  PageTree/Proofs/Live/Cleanups.lean
  ==================================
  **What becomes of the cleanups that effects return.**

  An effect, a cleanup or a listener may write a state and so have its own
  component rendered again, which runs the effects of the component inside the
  run that is under way.  Whatever happens, the books stay even (`Books`): the
  cleanups that were returned were run, or they are due in a slot, or somebody
  has taken them out to run them, or a run has overwritten them.  The last is how
  a cleanup is lost: a run stores its cleanup without looking whether a run
  inside it has stored one there meanwhile.

    * `cleanups_run_once_iff`: every cleanup is run exactly once, and in every
      slot runs and cleanups alternate, if and only if no run ends in a slot that
      still owes a cleanup.
    * `overwritten_cleanup_never_runs`: an effect that writes the state of its
      own component loses a cleanup.
-/
import PageTree.Proofs.Live.Debts
import PageTree.Proofs.Live.Records

namespace PageTree.Live

variable {P : Callbacks} {μ α : Type}

/-! ### The cleanups that are due in records -/

/-- The cleanups that are due in some records. -/
def dues (es : List (String × HookRecord P)) : Multiset (Due P) :=
  (es.flatMap (·.2.cleanups) : List (Due P))

@[simp] theorem dues_append (es fs : List (String × HookRecord P)) :
    dues (es ++ fs) = dues es + dues fs := by
  simp [dues]

@[simp] theorem dues_cons (e : String × HookRecord P) (es : List (String × HookRecord P)) :
    dues (e :: es) = (e.2.cleanups : Multiset (Due P)) + dues es := by
  simp [dues]

@[simp] theorem dues_nil : dues ([] : List (String × HookRecord P)) = 0 := rfl

theorem dues_modify {m : OrderedMap (HookRecord P)} {id : String}
    {f : HookRecord P → HookRecord P}
    (h : ∀ r, m.get? id = some r → (f r).cleanups = r.cleanups) :
    dues (m.modify id f).entries = dues m.entries := by
  cases hr : m.get? id with
  | none => rw [(OrderedMap.get?_eq_none_absent hr).2.1]
  | some r =>
    obtain ⟨before, after, hm, hf, _⟩ := OrderedMap.get?_eq_some_split hr
    rw [hf, hm]
    simp only [dues_append, dues_cons, h r hr]

theorem cleanups_congr {r r' : HookRecord P} (number : r'.number = r.number)
    (effects : r'.effects = r.effects) : r'.cleanups = r.cleanups := by
  have hdue : r'.dueAt = r.dueAt := by
    funext e
    rw [HookRecord.dueAt, HookRecord.dueAt, number]
  rw [HookRecord.cleanups, HookRecord.cleanups, hdue, effects]

/-- Reaching an effect slot changes nothing of what is due. -/
theorem cleanups_insert_getD (r : HookRecord P) (i : Nat) :
    { r with effects := r.effects.insert i ((r.effects.get? i).getD {}) }.cleanups
      = r.cleanups := by
  show (Slots.put i _ r.effects.entries).filterMap _ = r.effects.entries.filterMap r.dueAt
  cases hs : r.effects.get? i with
  | some s =>
    have same : Slots.put i s r.effects.entries = r.effects.entries :=
      Slots.put_of_find? hs r.effects.sorted
    rw [Option.getD_some, same]
    rfl
  | none =>
    obtain ⟨before, after, he, hp⟩ := Slots.put_of_find?_eq_none hs ({} : EffectSlot P)
    rw [Option.getD_none, hp, he, List.filterMap_append, List.filterMap_append]
    rfl

/-- The effect slot of a waiting effect owes its cleanup, and what the others owe
    does not depend on it. -/
theorem dues_of_effectSlot? {c : Client P} {e : PendingEffect P} {s : SlotName × EffectSlot P}
    (h : c.effectSlot? e = some s) :
    ∃ others, dues c.records.entries = debt (some s.1) s.2.cleanup + others ∧
      ∀ f, dues (c.modifyEffect e f).records.entries
        = debt (some s.1) (f s.2).cleanup + others := by
  obtain ⟨r, hr, h⟩ := Option.bind_eq_some_iff.1 h
  obtain ⟨slot, hs, rfl⟩ := Option.map_eq_some_iff.1 h
  obtain ⟨before, after, hm, hf, _⟩ := OrderedMap.get?_eq_some_split hr
  obtain ⟨first, last, he, hg⟩ := Slots.get?_eq_some_split hs
  have owed (t : EffectSlot P) : ((first ++ (e.index, t) :: last).filterMap r.dueAt :
      Multiset (Due P)) = debt (some ⟨r.number, e.index⟩) t.cleanup
        + ((first ++ last).filterMap r.dueAt : List (Due P)) := by
    rw [List.filterMap_append, List.filterMap_append, List.filterMap_cons, HookRecord.dueAt]
    cases t.cleanup with
    | none => simp
    | some k =>
      simp only [Option.map_some, debt_some]
      rw [← Multiset.coe_add, ← Multiset.cons_coe, Multiset.add_cons, Multiset.coe_add,
        Multiset.singleton_add]
  refine ⟨((first ++ last).filterMap r.dueAt : List (Due P)) + dues before + dues after, ?_, ?_⟩
  · have hrec : (r.cleanups : Multiset (Due P)) = _ :=
      (congrArg (fun es => ((es.filterMap r.dueAt : List (Due P)) : Multiset (Due P))) he).trans
        (owed slot)
    rw [hm, dues_append, dues_cons, hrec]
    abel
  · intro f
    have hrec : ({ r with effects := r.effects.modify e.index f }.cleanups : Multiset (Due P))
        = _ :=
      (congrArg (fun es => ((es.filterMap r.dueAt : List (Due P)) : Multiset (Due P)))
        (hg f)).trans (owed (f slot))
    rw [Client.modifyEffect, Client.modifyRecord]
    simp only [hf, dues_append, dues_cons, hrec]
    abel

theorem dues_of_effectSlot?_eq_none {c : Client P} {e : PendingEffect P}
    (h : c.effectSlot? e = none) (f : EffectSlot P → EffectSlot P) :
    dues (c.modifyEffect e f).records.entries = dues c.records.entries := by
  refine dues_modify fun r hr => ?_
  have hs : r.effects.get? e.index = none := by
    simpa [Client.effectSlot?, hr] using h
  exact congrArg (List.filterMap r.dueAt) (Slots.modify_of_get?_eq_none hs f)

/-! ### Changes that have nothing to do with cleanups -/

/-- Nothing of what is due or was noted has changed. -/
structure Spares (c c' : Client P) : Prop where
  history : c'.history = c.history
  released : c'.released = c.released
  dues : dues c'.records.entries = dues c.records.entries

namespace Spares

theorem trans {c c' c'' : Client P} (h : Spares c c') (h' : Spares c' c'') : Spares c c'' :=
  ⟨h'.history.trans h.history, h'.released.trans h.released, h'.dues.trans h.dues⟩

theorem modifyRecord (c : Client P) (id : String) {f : HookRecord P → HookRecord P}
    (h : ∀ r, c.records.get? id = some r → (f r).cleanups = r.cleanups) :
    Spares c (c.modifyRecord id f) :=
  ⟨rfl, rfl, dues_modify h⟩

theorem claim (c : Client P) (id : String) : Spares c (c.claim id).2 := by
  refine ⟨rfl, rfl, ?_⟩
  have same : { c.recordOf id with cursor := (c.recordOf id).cursor + 1 }.cleanups
      = (c.recordOf id).cleanups := cleanups_congr rfl rfl
  simp only [Client.claim]
  cases hr : c.records.get? id with
  | none =>
    have fresh : (c.recordOf id).cleanups = [] := by
      rw [Client.recordOf, hr]
      rfl
    rw [(OrderedMap.get?_eq_none_absent hr).2.2.1]
    simp only [dues_append, dues_cons, dues_nil, same, fresh, Multiset.coe_nil, add_zero]
  | some r =>
    have known := recordOf_of_get? hr
    obtain ⟨before, after, hm, _, hi, _⟩ := OrderedMap.get?_eq_some_split hr
    rw [hi, hm, dues_append, dues_append, dues_cons, dues_cons]
    rw [known] at same ⊢
    simp only [same]

theorem of_touch {c c' : Client P} (h : Touch c c') : Spares c c' := by
  induction h with
  | elsewhere records _ history released => exact ⟨history, released, by rw [records]⟩
  | claim c id => exact claim c id
  | reachState c id i v => exact modifyRecord c id fun _ _ => cleanups_congr rfl rfl
  | reachEffect c id i =>
    refine modifyRecord c id fun r hr => ?_
    rw [recordOf_of_get? hr]
    exact cleanups_insert_getD r i
  | reachCell c id i cell => exact modifyRecord c id fun _ _ => cleanups_congr rfl rfl
  | setState c s f => exact modifyRecord c s.component fun _ _ => cleanups_congr rfl rfl
  | trans _ _ ih ih' => exact ih.trans ih'

end Spares

theorem Change.spares {c c' : Client P} (h : Change c c') : Spares c c' := .of_touch h.touch

/-- A pass begins and ends without touching what is due. -/
theorem Spares.beginPass (c : Client P) (id : String) : Spares c (c.beginPass id).2 :=
  ⟨rfl, rfl, dues_modify fun _ _ => cleanups_congr rfl rfl⟩

/-! ### Taking cleanups out -/

theorem dues_eq_recordOf_add (c : Client P) (id : String) :
    dues c.records.entries
      = ((c.recordOf id).cleanups : Multiset (Due P)) + dues (c.records.erase id).entries := by
  cases hr : c.records.get? id with
  | none =>
    have fresh : (c.recordOf id).cleanups = [] := by
      rw [Client.recordOf, hr]
      rfl
    rw [(OrderedMap.get?_eq_none_absent hr).2.2.2, fresh, Multiset.coe_nil, zero_add]
  | some r =>
    have known := recordOf_of_get? hr
    obtain ⟨before, after, hm, _, _, he⟩ := OrderedMap.get?_eq_some_split hr
    rw [he, hm, known, dues_append, dues_append, dues_cons]
    abel

theorem dues_withoutCleanups (c : Client P) (id : String) :
    dues (c.records.modify id (·.withoutCleanups)).entries
      = dues (c.records.erase id).entries := by
  cases hr : c.records.get? id with
  | none =>
    obtain ⟨_, hf, _, he⟩ := OrderedMap.get?_eq_none_absent hr
    rw [hf, he]
  | some r =>
    obtain ⟨before, after, _, hf, _, he⟩ := OrderedMap.get?_eq_some_split hr
    rw [hf, he, dues_append, dues_append, dues_cons, r.cleanups_withoutCleanups,
      Multiset.coe_nil, zero_add]

/-- What has been taken out is owed by whoever took it. -/
theorem Take.owes {take : Client P → List (Due P) × Client P} (h : Take take) (c : Client P)
    {hand : Multiset (Due P)} (ho : Owes c.history (dues c.records.entries + hand)) :
    Owes (take c).2.history
      (dues (take c).2.records.entries + (((take c).1 : Multiset (Due P)) + hand)) := by
  cases h with
  | takeCleanup e =>
    cases hs : c.effectSlot? e with
    | none =>
      simp only [Client.takeCleanup, hs, Option.bind_none, Option.toList_none, Multiset.coe_nil,
        zero_add]
      rw [dues_of_effectSlot?_eq_none hs]
      exact ho
    | some s =>
      obtain ⟨others, hd, hf⟩ := dues_of_effectSlot? hs
      have taken : ((c.takeCleanup e).1 : Multiset (Due P)) = debt (some s.1) s.2.cleanup := by
        simp only [Client.takeCleanup, hs, Option.bind_some, debt]
      have left : dues (c.takeCleanup e).2.records.entries = others := by
        rw [Client.takeCleanup, hf, debt_none, zero_add]
      rw [taken, left, add_left_comm, ← add_assoc, ← hd]
      exact ho
  | settleEffect e k =>
    cases hs : c.effectSlot? e with
    | none =>
      simp only [Client.settleEffect, hs]
      have owed : Owes (.stray k :: c.history)
          (debt none k + (dues c.records.entries + hand)) := .stray ho
      rwa [add_left_comm] at owed
    | some s =>
      obtain ⟨others, hd, hf⟩ := dues_of_effectSlot? hs
      simp only [Client.settleEffect, hs, Multiset.coe_nil, zero_add]
      rw [hd, add_assoc] at ho
      have owed : Owes (.ran s.1 s.2.cleanup k :: c.history)
          (debt (some s.1) k + (others + hand)) := .ran ho
      rw [← add_assoc, ← hf fun _ => { cleanup := k, deps := e.deps }] at owed
      exact owed
  | forget id =>
    rw [dues_eq_recordOf_add c id, add_assoc, add_left_comm] at ho
    exact ho
  | detach n i =>
    obtain ⟨taken, left, _, history, _⟩ := detach_eq c n i
    rw [taken, left, history, dues_withoutCleanups]
    rw [dues_eq_recordOf_add c i.element, add_assoc, add_left_comm] at ho
    exact ho
  | clear =>
    have none_left : dues c.clear.2.records.entries = 0 := rfl
    rw [none_left, zero_add]
    exact ho

theorem Take.released {take : Client P → List (Due P) × Client P} (h : Take take)
    (c : Client P) : (take c).2.released = c.released := by
  cases h with
  | settleEffect e k =>
    show (c.settleEffect e k).2.released = c.released
    unfold Client.settleEffect
    split <;> rfl
  | detach n i => exact (detach_eq c n i).2.2.2.2
  | _ => rfl

/-! ### The books -/

/-- However much is owed beside what is due in the records, it is owed still,
    unless the client was let go. -/
def Books (c c' : Client P) : Prop :=
  c'.released = false → c.released = false ∧ ∀ hand : Multiset (Due P),
    Owes c.history (dues c.records.entries + hand) →
      Owes c'.history (dues c'.records.entries + hand)

theorem Spares.books {c c' : Client P} (h : Spares c c') : Books c c' := by
  intro alive
  rw [h.released] at alive
  refine ⟨alive, fun hand ho => ?_⟩
  rwa [h.history, h.dues]

theorem Books.trans {c c' c'' : Client P} (h : Books c c') (h' : Books c' c'') : Books c c'' := by
  intro alive
  obtain ⟨alive', second⟩ := h' alive
  obtain ⟨alive, first⟩ := h alive'
  exact ⟨alive, fun hand ho => second hand (first hand ho)⟩

/-- Running cleanups that were taken out pays for them, one after another. -/
theorem books_undo {calls : Calls P μ} (hk : ∀ k, (calls.cleanup k).Moves Books)
    (ds : List (Due P)) {w w' : World P μ} {u : PUnit}
    (h : ds.forM calls.undo w = some (u, w')) (alive : w'.client.released = false) :
    w.client.released = false ∧ ∀ hand : Multiset (Due P),
      Owes w.client.history (dues w.client.records.entries + ((ds : Multiset (Due P)) + hand)) →
        Owes w'.client.history (dues w'.client.records.entries + hand) := by
  refine Calls.undo_induction (S := fun ds c c' => c'.released = false → c.released = false ∧
    ∀ hand : Multiset (Due P),
      Owes c.history (dues c.records.entries + ((ds : Multiset (Due P)) + hand)) →
        Owes c'.history (dues c'.records.entries + hand)) hk ?_ ?_ ds h alive
  · intro c alive
    exact ⟨alive, fun hand ho => by simpa using ho⟩
  · intro d ds c c' c'' undone rest alive
    obtain ⟨alive', rest⟩ := rest alive
    obtain ⟨alive₀, first⟩ := undone alive'
    refine ⟨alive₀, fun hand ho => rest hand (first (ds + hand) (.undone ?_))⟩
    rw [← Multiset.cons_coe, Multiset.cons_add, Multiset.add_cons] at ho
    exact ho

theorem books : Law (Books (P := P)) where
  refl _ alive := ⟨alive, fun _ ho => ho⟩
  trans := Books.trans
  change h := h.spares.books
  pass calls id body hr := by
    intro w a w' h
    obtain ⟨w₁, h₁, rfl⟩ := Calls.runPass_eq_some h
    have ends : Spares w₁.client (w₁.client.endPass w.client.current) := ⟨rfl, rfl, rfl⟩
    exact ((Spares.beginPass w.client id).books.trans (hr _ _ _ h₁)).trans ends.books
  take calls take ht hk := by
    intro w a w' h alive
    obtain ⟨alive₁, paid⟩ := books_undo hk _ h alive
    have alive₀ := (ht.released w.client).symm.trans alive₁
    exact ⟨alive₀, fun hand ho => paid hand (ht.owes w.client ho)⟩

/-- A client that is let go is gone. -/
theorem books_settle (c : Client P) : Books c c.settle := by
  intro alive
  by_cases given : c.abandoned = true
  · rw [Client.settle, if_pos given] at alive
    cases alive
  · rw [Client.settle, if_neg given] at alive ⊢
    exact ⟨alive, fun _ ho => ho⟩

/-! ### Deadlines -/

/-- All these cleanups were run on the way. -/
def Discharged (ds : List (Due P)) (c c' : Client P) : Prop :=
  ∃ recent, c'.history = recent ++ c.history ∧ (ds : Multiset (Due P)) ≤ invoked recent

theorem Discharged.trans {ds es : List (Due P)} {c c' c'' : Client P} (h : Discharged ds c c')
    (h' : Discharged es c' c'') : Discharged (ds ++ es) c c'' := by
  obtain ⟨first, hf, hds⟩ := h
  obtain ⟨second, hs, hes⟩ := h'
  refine ⟨second ++ first, by rw [hs, hf, List.append_assoc], ?_⟩
  rw [invoked_append, ← Multiset.coe_add, add_comm]
  exact add_le_add hes hds

theorem Discharged.of_history_eq {c c' : Client P} (h : c'.history = c.history) :
    Discharged [] c c' :=
  ⟨[], h, le_refl _⟩

theorem Discharged.mono {ds es : List (Due P)} {c c' : Client P} (h : Discharged es c c')
    (hle : (ds : Multiset (Due P)) ≤ es) : Discharged ds c c' := by
  obtain ⟨recent, hr, he⟩ := h
  exact ⟨recent, hr, hle.trans he⟩

/-- Whoever runs cleanups runs all of them. -/
theorem discharged_forM_undo {calls : Calls P μ}
    (hk : ∀ k, (calls.cleanup k).Moves (Discharged [])) (ds : List (Due P)) {w w' : World P μ}
    {u : PUnit} (h : ds.forM calls.undo w = some (u, w')) : Discharged ds w.client w'.client := by
  refine Calls.undo_induction hk (fun _ => .of_history_eq rfl) ?_ ds h
  intro d ds c c' c'' undone rest
  have noted : Discharged [d] c (c.note (.undone d)) := ⟨[.undone d], rfl, le_refl _⟩
  exact (noted.trans undone).trans rest

theorem Take.history {take : Client P → List (Due P) × Client P} (h : Take take) (c : Client P) :
    Discharged [] c (take c).2 := by
  cases h with
  | settleEffect e k =>
    show Discharged [] c (c.settleEffect e k).2
    unfold Client.settleEffect
    split
    · exact ⟨[_], rfl, bot_le⟩
    · exact ⟨[_], rfl, bot_le⟩
  | detach n i => exact .of_history_eq (detach_eq c n i).2.2.2.1
  | _ => exact .of_history_eq rfl

theorem discharged_undoAll {calls : Calls P μ}
    (hk : ∀ k, (calls.cleanup k).Moves (Discharged []))
    {take : Client P → List (Due P) × Client P} (ht : Take take) {w w' : World P μ} {u : PUnit}
    (h : calls.undoAll take w = some (u, w')) :
    Discharged (take w.client).1 w.client w'.client := by
  rw [Calls.undoAll_eq] at h
  exact (ht.history w.client).trans (discharged_forM_undo hk _ h)

/-- Nothing that was noted is forgotten. -/
theorem historyGrows : Law (Discharged (P := P) []) where
  refl _ := .of_history_eq rfl
  trans := Discharged.trans
  change h := .of_history_eq h.spares.history
  pass calls id body hr := by
    intro w a w' h
    obtain ⟨w₁, h₁, rfl⟩ := Calls.runPass_eq_some h
    have rendered := hr _ _ _ h₁
    exact rendered
  take calls take ht hk := by
    intro w a w' h
    exact (discharged_undoAll hk ht h).mono bot_le

theorem discharged_tearDown (p : Program P μ) {depth n : Nat} {w w' : World P μ}
    {i : Instance P} (found : w.client.instance? n = some i)
    (h : (p.invoke depth).tearDown n w = some ((), w')) :
    Discharged (w.client.recordOf i.element).cleanups w.client w'.client := by
  have callbacks := (historyGrows (P := P)).moves_invoke p depth
  obtain ⟨_, w₁, h₁, h⟩ := Act.bind_eq_some.1 h
  obtain ⟨rfl, rfl⟩ : w.client.instance? n = _ ∧ w = w₁ := by simpa using Option.some.inj h₁
  rw [found] at h
  obtain ⟨_, w₂, h₂, h⟩ := Act.bind_eq_some.1 h
  obtain ⟨last, w₃, h₃, h⟩ := Act.bind_eq_some.1 h
  have run := discharged_undoAll callbacks.cleanup (.detach n i) h₂
  have ended : Discharged [] w₂.client w₃.client :=
    Act.Moves.through (fun c => historyGrows.change (.endSubscription c n)) w₂ last w₃ h₃
  have forgotten : Discharged [] w₃.client w'.client := by
    cases last with
    | true => exact historyGrows.take _ (.forget i.element) callbacks.cleanup w₃ () w' h
    | false => exact Act.Moves.pure historyGrows.toComposes () w₃ () w' h
  rw [(detach_eq w.client n i).1] at run
  simpa using (run.trans ended).trans forgotten

/-! ### Every cleanup once -/

theorem dueAt_eq_some {r : HookRecord P} {e : Nat × EffectSlot P} {d : Due P}
    (h : r.dueAt e = some d) : d.slot = some ⟨r.number, e.1⟩ := by
  obtain ⟨k, _, rfl⟩ := Option.map_eq_some_iff.1 h
  rfl

/-- No two of the cleanups that are due are due in one slot. -/
theorem Numbered.pairwise_slots {c : Client P} (h : Numbered c) :
    c.outstanding.Pairwise fun d d' => d.slot ≠ d'.slot := by
  have apart := h.numbers
  rw [tags, List.map_map, List.nodup_iff_pairwise_ne, List.pairwise_map] at apart
  refine List.pairwise_flatMap.2 ⟨fun entry _ => ?_, apart.imp ?_⟩
  · -- within a record the positions differ
    have sorted := List.pairwise_map.1 entry.2.effects.sorted
    refine List.Pairwise.filterMap entry.2.dueAt ?_ sorted
    intro e e' lt d hd d' hd' same
    rw [dueAt_eq_some hd, dueAt_eq_some hd', Option.some.injEq, SlotName.mk.injEq] at same
    omega
  · -- across records the numbers do
    intro entry entry' ne d hd d' hd' same
    obtain ⟨e, _, hd⟩ := List.mem_filterMap.1 hd
    obtain ⟨e', _, hd'⟩ := List.mem_filterMap.1 hd'
    rw [dueAt_eq_some hd, dueAt_eq_some hd', Option.some.injEq, SlotName.mk.injEq] at same
    exact ne same.1

/-- What effects returned was run, each exactly once, or is due in its slot
    still; and in every slot runs and cleanups take turns. -/
def Faithful (c : Client P) : Prop :=
  returned c.history = invoked c.history + (c.outstanding : Multiset (Due P)) ∧
    ∀ slot, ∃ k, Alternating (eventsOf slot c.history) k

/-- After every run the books are even.  No cleanup is lost if and only if every
    run ended in an empty slot; and every cleanup is run exactly once, in turn
    with the runs of its slot, if and only if no run ended in a slot that still
    owed a cleanup.  A slot never holds two.  What is due when a component is
    forgotten or torn down, or everything is reset, is run before that is over. -/
theorem cleanups_run_once_iff (p : Program P μ) {depth : Nat} {m : Routine P μ α}
    {document : Document} {memory : μ} {a : α} {w : World P μ}
    (h : p.run depth m ⟨Client.new document, memory⟩ = some (a, w))
    (kept : w.client.released = false) :
    (returned w.client.history = invoked w.client.history + overwritten w.client.history
        + (w.client.outstanding : Multiset (Due P))) ∧
      (returned w.client.history
          = invoked w.client.history + (w.client.outstanding : Multiset (Due P)) ↔
        ∀ slot found k, .ran slot found k ∈ w.client.history → found = none) ∧
      (Faithful w.client ↔ Orderly w.client.history) ∧
      (w.client.outstanding.Pairwise fun d d' => d.slot ≠ d'.slot) ∧
      ∀ (nesting : Nat) (w₁ w₂ : World P μ),
        (∀ id, (p.invoke nesting).cleanUp id w₁ = some ((), w₂) →
          Discharged (w₁.client.recordOf id).cleanups w₁.client w₂.client) ∧
        (∀ n i, w₁.client.instance? n = some i → (p.invoke nesting).tearDown n w₁ = some ((), w₂) →
          Discharged (w₁.client.recordOf i.element).cleanups w₁.client w₂.client) ∧
        ((p.invoke nesting).reset w₁ = some ((), w₂) →
          Discharged w₁.client.outstanding w₁.client w₂.client) := by
  have owes : Owes w.client.history (dues w.client.records.entries + 0) :=
    (books.run books_settle h kept).2 0 .start
  rw [add_zero] at owes
  refine ⟨owes.balance, ?_, ⟨?_, ?_⟩, (Path.of_run h).numbered.pairwise_slots,
    fun nesting w₁ w₂ => ?_⟩
  · rw [owes.balance, ← overwritten_eq_zero_iff]
    exact (add_left_inj _).trans add_eq_left
  · rintro ⟨_, turns⟩
    exact owes.alternating_iff.1 turns
  · intro orderly
    have balance := owes.balance
    rw [owes.overwritten_of_orderly orderly, add_zero] at balance
    exact ⟨balance, owes.alternating_iff.2 orderly⟩
  · have callbacks := (historyGrows (P := P)).moves_invoke p nesting
    refine ⟨fun id h => ?_, fun n i found h => discharged_tearDown p found h, fun h => ?_⟩
    · exact discharged_undoAll callbacks.cleanup (.forget id) h
    · exact discharged_undoAll callbacks.cleanup .clear h

/-! ### A cleanup that is lost -/

/-- Effects are given by the setter that they use. -/
abbrev restless : Callbacks where
  Body := Unit
  Effect := Setter
  Cleanup := Unit
  Listener := Unit
  View := Unit

/-- A component with a state and an effect that writes it after every pass. -/
def restlessProgram : Program restless Unit where
  render _ _ := do
    match ← Routine.request (.useState false (.int 0)) with
    | .error e => return .error e
    | .ok (_, s) =>
      match ← Routine.request (.useEffect false none s) with
      | .error e => return .error e
      | .ok () => return .ok ""
  effect s := do
    let _ ← Routine.request (.write s (.int 1))
    return some ()
  cleanup _ := return ()
  listener _ := return ()
  view _ _ := return ""

/-- Mounts the component and unmounts it again. -/
def mountAndUnmount : Routine restless Unit Unit := do
  match ← Routine.request (.mount "a" ()) with
  | .error _ => return ()
  | .ok n => Routine.request (.unmount n)

def onePlace : Document := Document.ofElements [("a", "")]

/-- The world after the component has come and gone. -/
def restlessEnd : World restless Unit :=
  ((restlessProgram.run 4 mountAndUnmount ⟨Client.new onePlace, ()⟩).getD
    ((), ⟨Client.new onePlace, ()⟩)).2

theorem run_restless :
    restlessProgram.run 4 mountAndUnmount ⟨Client.new onePlace, ()⟩ = some ((), restlessEnd) := by
  have answers : (restlessProgram.run 4 mountAndUnmount ⟨Client.new onePlace, ()⟩).isSome := by
    decide +kernel
  obtain ⟨⟨⟨⟩, w⟩, hw⟩ := Option.isSome_iff_exists.1 answers
  rw [restlessEnd, hw, Option.getD_some]

/-- The first run writes the state, so the effect runs a second time inside it.
    When the first run ends, it overwrites the cleanup of the second. -/
theorem restless_cleanups :
    restlessProgram.run 4 mountAndUnmount ⟨Client.new onePlace, ()⟩ = some ((), restlessEnd) ∧
      restlessEnd.client.released = false ∧
      (returned restlessEnd.client.history = invoked restlessEnd.client.history
        + overwritten restlessEnd.client.history
        + (restlessEnd.client.outstanding : Multiset (Due restless))) ∧
      (Faithful restlessEnd.client ↔ Orderly restlessEnd.client.history) ∧
      (returned restlessEnd.client.history).card = 2 ∧
      (invoked restlessEnd.client.history).card = 1 := by
  have kept : restlessEnd.client.released = false := by decide +kernel
  have books := cleanups_run_once_iff restlessProgram run_restless kept
  exact ⟨run_restless, kept, books.1, books.2.2.1, by decide +kernel, by decide +kernel⟩

/-- Not every run is faithful: the component is gone, nothing is due any more,
    and one of the two cleanups was never run. -/
theorem overwritten_cleanup_never_runs :
    ¬ ∀ (m : Routine restless Unit Unit) (w : World restless Unit),
      restlessProgram.run 4 m ⟨Client.new onePlace, ()⟩ = some ((), w) →
        w.client.released = false → Faithful w.client := by
  intro claim
  have kept : restlessEnd.client.released = false := by decide +kernel
  have once := congrArg Multiset.card (claim mountAndUnmount restlessEnd run_restless kept).1
  have two : (returned restlessEnd.client.history).card = 2 := by decide +kernel
  have one : (invoked restlessEnd.client.history).card = 1 := by decide +kernel
  have left : restlessEnd.client.outstanding.length = 0 := by decide +kernel
  rw [Multiset.card_add, two, one, Multiset.coe_card, left] at once
  omega

end PageTree.Live
