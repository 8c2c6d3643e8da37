/-
  PageTree/Proofs/Live/Records.lean
  =================================
  **What changes of the client do to hook records.**

  Most changes leave the records alone.  The others claim positions, reach slots
  and set states (`Change.touch`).  Records are numbered in the order in which
  they are made, so a record that is gone does not come back: whatever is found
  later under the id of its component has a higher number (`Path.later`).
-/
import PageTree.Proofs.Live.Conduct

namespace PageTree.Live

variable {P : Callbacks} {μ α : Type}

theorem recordOf_of_get? {c : Client P} {id : String} {r : HookRecord P}
    (h : c.records.get? id = some r) : c.recordOf id = r := by
  rw [Client.recordOf, h, Option.getD_some]

/-! ### Claiming positions, reaching slots, setting states -/

/-- What a change does to hook records. -/
inductive Touch : Client P → Client P → Prop
  | elsewhere {c c'} (records : c'.records = c.records) (next : c'.nextRecord = c.nextRecord)
      (history : c'.history = c.history) (released : c'.released = c.released) : Touch c c'
  | claim (c id) : Touch c (c.claim id).2
  | reachState (c : Client P) (id i v) : Touch c (c.modifyRecord id fun r =>
      { r with states := r.states.insert i (((c.recordOf id).states.get? i).getD { value := v }) })
  | reachEffect (c : Client P) (id i) : Touch c (c.modifyRecord id fun r =>
      { r with effects := r.effects.insert i (((c.recordOf id).effects.get? i).getD {}) })
  | reachCell (c : Client P) (id i cell) : Touch c (c.modifyRecord id fun r =>
      { r with cells := r.cells.insert i cell })
  | setState (c : Client P) (s f) : Touch c (c.modifyState s f)
  | trans {c c' c''} : Touch c c' → Touch c' c'' → Touch c c''

namespace Touch

theorem of_eq {c c' : Client P} (h : c' = c) : Touch c c' := by
  subst h
  exact .elsewhere rfl rfl rfl rfl

theorem useState (c : Client P) (id : String) (v : Value) : Touch c (c.useState id v).2 := by
  have reached := (Touch.claim c id).trans (.reachState (c.claim id).2 id (c.claim id).1 v)
  unfold Client.useState
  dsimp only
  split
  · exact reached
  · exact reached

theorem useCell (c : Client P) (id : String) (v : Value) : Touch c (c.useCell id v).2 := by
  unfold Client.useCell
  dsimp only
  split
  · split
    · exact .claim c id
    · exact .claim c id
  · have reached := (Touch.claim c id).trans (.reachCell _ id (c.claim id).1 c.cells.length)
    exact reached.trans (.elsewhere rfl rfl rfl rfl)

theorem useEffect (c : Client P) (id : String) (deps : Option Deps) (e : P.Effect) :
    Touch c (c.useEffect id deps e) := by
  have reached := (Touch.claim c id).trans (.reachEffect (c.claim id).2 id (c.claim id).1)
  unfold Client.useEffect
  dsimp only
  split
  · exact reached.trans (.elsewhere rfl rfl rfl rfl)
  · exact reached

end Touch

theorem Change.touch {c c' : Client P} (h : Change c c') : Touch c c' := by
  cases h with
  | useState id v => exact .useState c id v
  | useCell id v => exact .useCell c id v
  | useEffect id deps e => exact .useEffect c id deps e
  | store s v =>
    unfold Client.store
    split
    · exact .of_eq rfl
    · split
      · exact .of_eq rfl
      · exact .setState c s _
  | listen s l =>
    have counted : Touch c { c with nextListener := c.nextListener + 1 } :=
      .elsewhere rfl rfl rfl rfl
    exact counted.trans (.setState _ s _)
  | unlisten s n => exact .setState c s _
  | writeCell r v =>
    unfold Client.writeCell
    split <;> exact .elsewhere rfl rfl rfl rfl
  | writeContext h v =>
    unfold Client.writeContext
    split
    · exact .of_eq rfl
    · split <;> exact .elsewhere rfl rfl rfl rfl
  | findRoute id path =>
    unfold Client.findRoute
    split <;> exact .elsewhere rfl rfl rfl rfl
  | beginRender n =>
    unfold Client.beginRender
    split
    · exact .of_eq rfl
    · split <;> exact .elsewhere rfl rfl rfl rfl
  | endSubscription n =>
    unfold Client.endSubscription
    split
    · exact .of_eq rfl
    · dsimp only
      split <;> exact .elsewhere rfl rfl rfl rfl
  | _ => exact .elsewhere rfl rfl rfl rfl

theorem detach_eq (c : Client P) (n : Nat) (i : Instance P) :
    (c.detach n i).1 = (c.recordOf i.element).cleanups ∧
      (c.detach n i).2.records = c.records.modify i.element (·.withoutCleanups) ∧
      (c.detach n i).2.nextRecord = c.nextRecord ∧
      (c.detach n i).2.history = c.history ∧ (c.detach n i).2.released = c.released := by
  unfold Client.detach
  dsimp only
  split <;> exact ⟨rfl, rfl, rfl, rfl, rfl⟩

/-! ### Numbers of records -/

/-- The components that have records, each with the number of its record. -/
def tags (c : Client P) : List (String × Nat) := c.records.entries.map fun e => (e.1, e.2.number)

theorem mem_tags {c : Client P} {id : String} {r : HookRecord P}
    (h : c.records.get? id = some r) : (id, r.number) ∈ tags c :=
  List.mem_map.2 ⟨(id, r), OrderedMap.mem_of_get? h, rfl⟩

theorem not_mem_tags {c : Client P} {id : String} (h : c.records.get? id = none) (n : Nat) :
    (id, n) ∉ tags c := by
  intro hmem
  obtain ⟨e, he, htag⟩ := List.mem_map.1 hmem
  exact (OrderedMap.get?_eq_none_absent h).1 e he (congrArg Prod.fst htag)

/-- A record keeps its number when it is changed. -/
theorem tags_modify {c c' : Client P} {id : String} {f : HookRecord P → HookRecord P}
    (records : c'.records = c.records.modify id f) (number : ∀ r, (f r).number = r.number) :
    tags c' = tags c := by
  rw [tags, tags, records]
  cases hr : c.records.get? id with
  | none => rw [(OrderedMap.get?_eq_none_absent hr).2.1]
  | some r =>
    obtain ⟨before, after, hm, hf, _⟩ := OrderedMap.get?_eq_some_split hr
    rw [hf, hm]
    simp only [List.map_append, List.map_cons, number]

/-- No component has two records, no number is given twice, and the next one is
    free. -/
structure Numbered (c : Client P) : Prop where
  keys : ((tags c).map Prod.fst).Nodup
  numbers : ((tags c).map Prod.snd).Nodup
  below : ∀ t ∈ tags c, t.2 < c.nextRecord

/-- Records that were made in between have higher numbers. -/
structure Succeeds (c c' : Client P) : Prop where
  next : c.nextRecord ≤ c'.nextRecord
  tag : ∀ t ∈ tags c', t ∈ tags c ∨ c.nextRecord ≤ t.2
  numbered : Numbered c → Numbered c'

namespace Succeeds

theorem trans {c c' c'' : Client P} (h : Succeeds c c') (h' : Succeeds c' c'') :
    Succeeds c c'' := by
  refine ⟨h.next.trans h'.next, ?_, h'.numbered ∘ h.numbered⟩
  intro t ht
  rcases h'.tag t ht with ht | fresh
  · exact h.tag t ht
  · exact .inr (h.next.trans fresh)

/-- Fewer records are no new records. -/
theorem of_sublist {c c' : Client P} (h : List.Sublist (tags c') (tags c))
    (next : c'.nextRecord = c.nextRecord) : Succeeds c c' := by
  refine ⟨next.ge, fun t ht => .inl (h.subset ht), ?_⟩
  intro hc
  refine ⟨(h.map _).nodup hc.keys, (h.map _).nodup hc.numbers, ?_⟩
  intro t ht
  rw [next]
  exact hc.below t (h.subset ht)

theorem of_tags {c c' : Client P} (h : tags c' = tags c) (next : c'.nextRecord = c.nextRecord) :
    Succeeds c c' :=
  of_sublist (by rw [h]) next

theorem modify {c c' : Client P} {id : String} {f : HookRecord P → HookRecord P}
    (records : c'.records = c.records.modify id f) (next : c'.nextRecord = c.nextRecord)
    (number : ∀ r, (f r).number = r.number) : Succeeds c c' :=
  of_tags (tags_modify records number) next

/-- A new record takes the next number. -/
theorem of_new {c c' : Client P} {id : String} (absent : ∀ n, (id, n) ∉ tags c)
    (h : tags c' = tags c ++ [(id, c.nextRecord)]) (next : c'.nextRecord = c.nextRecord + 1) :
    Succeeds c c' := by
  refine ⟨by omega, ?_, ?_⟩
  · intro t ht
    rw [h] at ht
    rcases List.mem_append.1 ht with ht | ht
    · exact .inl ht
    · obtain rfl := List.mem_singleton.1 ht
      exact .inr (le_refl _)
  · intro hc
    refine ⟨?_, ?_, ?_⟩
    · rw [h, List.map_append, List.nodup_append]
      refine ⟨hc.keys, by simp, ?_⟩
      intro key hkey other hother
      obtain ⟨⟨k, n⟩, ht, rfl⟩ := List.mem_map.1 hkey
      obtain rfl : other = id := by simpa using hother
      rintro rfl
      exact absent n ht
    · rw [h, List.map_append, List.nodup_append]
      refine ⟨hc.numbers, by simp, ?_⟩
      intro n hn other hother
      obtain ⟨t, ht, rfl⟩ := List.mem_map.1 hn
      obtain rfl : other = c.nextRecord := by simpa using hother
      exact (hc.below t ht).ne
    · intro t ht
      rw [h] at ht
      rw [next]
      rcases List.mem_append.1 ht with ht | ht
      · exact (hc.below t ht).trans (Nat.lt_succ_self _)
      · obtain rfl := List.mem_singleton.1 ht
        exact Nat.lt_succ_self _

theorem claim (c : Client P) (id : String) : Succeeds c (c.claim id).2 := by
  cases hr : c.records.get? id with
  | none =>
    have inserted := (OrderedMap.get?_eq_none_absent hr).2.2.1
    have number : (c.recordOf id).number = c.nextRecord := by
      rw [Client.recordOf, hr]
      rfl
    refine of_new (not_mem_tags hr) ?_ ?_
    · rw [tags, Client.claim, inserted, List.map_append]
      simp only [List.map_cons, List.map_nil, number]
      rfl
    · simp [Client.claim, OrderedMap.contains, hr]
  | some r =>
    have known := recordOf_of_get? hr
    obtain ⟨before, after, hm, hf, inserted, _⟩ := OrderedMap.get?_eq_some_split hr
    -- claiming a position of a record that is there only moves its cursor
    have entries : (c.claim id).2.records.entries
        = (c.records.modify id fun r => { r with cursor := r.cursor + 1 }).entries := by
      rw [hf, ← known]
      exact inserted _
    refine modify (congrArg OrderedMap.mk entries) ?_ fun _ => rfl
    simp [Client.claim, OrderedMap.contains, hr]

theorem of_touch {c c' : Client P} (h : Touch c c') : Succeeds c c' := by
  induction h with
  | elsewhere records next => exact of_tags (by rw [tags, tags, records]) next
  | claim c id => exact claim c id
  | reachState c id i v => exact modify rfl rfl fun _ => rfl
  | reachEffect c id i => exact modify rfl rfl fun _ => rfl
  | reachCell c id i cell => exact modify rfl rfl fun _ => rfl
  | setState c s f => exact modify rfl rfl fun _ => rfl
  | trans _ _ ih ih' => exact ih.trans ih'

theorem of_take {take : Client P → List (Due P) × Client P} (h : Take take) (c : Client P) :
    Succeeds c (take c).2 := by
  cases h with
  | takeCleanup e => exact modify rfl rfl fun _ => rfl
  | settleEffect e k =>
    show Succeeds c (c.settleEffect e k).2
    unfold Client.settleEffect
    split
    · exact modify rfl rfl fun _ => rfl
    · exact of_tags rfl rfl
  | forget id =>
    refine of_sublist (List.Sublist.map _ ?_) rfl
    show List.Sublist (c.records.erase id).entries c.records.entries
    cases hr : c.records.get? id with
    | none => rw [(OrderedMap.get?_eq_none_absent hr).2.2.2]
    | some r =>
      obtain ⟨before, after, hm, _, _, erased⟩ := OrderedMap.get?_eq_some_split hr
      rw [erased, hm]
      exact (List.sublist_cons_self _ _).append_left before
  | detach n i =>
    obtain ⟨_, records, next, _⟩ := detach_eq c n i
    exact modify records next fun _ => rfl
  | clear => exact of_sublist (List.nil_sublist _) rfl

end Succeeds

theorem Path.succeeds {c c' : Client P} (h : Path c c') : Succeeds c c' := by
  induction h with
  | refl => exact .of_tags rfl rfl
  | change _ step ih => exact ih.trans (.of_touch step.touch)
  | beginPass _ id ih => exact ih.trans (.modify rfl rfl fun _ => rfl)
  | endPass _ previous ih => exact ih.trans (.of_tags rfl rfl)
  | take _ step ih => exact ih.trans (.of_take step _)
  | note _ e ih => exact ih.trans (.of_tags rfl rfl)
  | @settle c' _ ih =>
    refine ih.trans ?_
    unfold Client.settle
    split
    · exact .of_sublist (List.nil_sublist _) rfl
    · exact .of_tags rfl rfl

/-- On every path from a new client the records are numbered. -/
theorem Path.numbered {document : Document} {c : Client P} (h : Path (Client.new document) c) :
    Numbered c :=
  h.succeeds.numbered ⟨List.nodup_nil, List.nodup_nil, fun _ ht => nomatch ht⟩

/-- What is found of a component that was gone was made after that. -/
theorem Path.later {c c' : Client P} (h : Path c c') {id : String} {r : HookRecord P}
    (gone : c.records.get? id = none) (found : c'.records.get? id = some r) :
    c.nextRecord ≤ r.number := by
  rcases h.succeeds.tag _ (mem_tags found) with old | fresh
  · exact absurd old (not_mem_tags gone _)
  · exact fresh

end PageTree.Live
