/-
  PageTree/Proofs/Live/Instances.lean
  ===================================
  **What becomes of mounted instances.**

  An instance is known in three places: by its flag, by the table of what is
  mounted on which element, and by the listener that renders it again.  Most
  changes of the client leave these alone; `Shift` lists what the others do to
  them.  Instances are numbered in the order in which they are made and are never
  dropped, and so are listeners, so what is found later was there before or has
  a higher number.

    * `Path.ages`: a flag that was cleared is never set again.
    * `Path.wired`: how numbers, elements and listeners fit together.
    * `Path.renews`: what is new has new numbers.
    * `mounted_unmountElement`: an element is taken out of the table and nothing
      else, if cleanups leave the table alone.
-/
import PageTree.Proofs.Live.Conduct

namespace PageTree.Live

variable {P : Callbacks} {μ α : Type}

/-! ### What is said of an instance -/

/-- The number belongs to an instance whose flag is set. -/
def Alive (c : Client P) (n : Nat) (i : Instance P) : Prop :=
  c.instance? n = some i ∧ i.mounted = true

/-- The number belongs to an instance whose flag has been cleared. -/
def Stopped (c : Client P) (n : Nat) : Prop := ∃ i, c.instance? n = some i ∧ i.mounted = false

theorem Stopped.not_alive {c : Client P} {n : Nat} {i : Instance P} (h : Stopped c n) :
    ¬ Alive c n i := by
  rintro ⟨hi, mounted⟩
  obtain ⟨j, hj, stopped⟩ := h
  obtain rfl : i = j := Option.some.inj (hi.symm.trans hj)
  rw [mounted] at stopped
  cases stopped

theorem lt_of_instance? {c : Client P} {n : Nat} {i : Instance P} (h : c.instance? n = some i) :
    n < c.instances.length :=
  (List.getElem?_eq_some_iff.1 h).1

/-! ### The tables after a change -/

theorem instance?_modify (c : Client P) (n m : Nat) (f : Instance P → Instance P) :
    (c.modifyInstance n f).instance? m
      = if n = m then (c.instance? m).map f else c.instance? m := by
  simp only [Client.instance?, Client.modifyInstance, List.getElem?_modify]
  split <;> simp

theorem instance?_addInstance (c : Client P) (id : String) (body : P.Body) (m : Nat) :
    (c.addInstance id body).2.instance? m
      = if m = c.instances.length
        then some { element := id, body, listener := some c.nextListener }
        else c.instance? m := by
  show (c.instances ++ [_])[m]? = _
  rw [List.getElem?_append]
  split
  · next h => rw [if_neg (by omega)]; rfl
  · next h =>
    split
    · next heq => simp [heq]
    · next hne =>
      have past : c.instances[m]? = none := List.getElem?_eq_none (by omega)
      rw [Client.instance?, past]
      exact List.getElem?_eq_none (by simp; omega)

theorem get?_erase {β : Type} {m : OrderedMap β} (nodup : m.keys.Nodup) (key other : String) :
    (m.erase key).get? other = if key = other then none else m.get? other := by
  split
  · next h => rw [← h, OrderedMap.get?_erase_self key nodup]
  · next h => exact OrderedMap.get?_erase_of_ne h m

theorem mounted_addInstance (c : Client P) (id other : String) (body : P.Body) :
    (c.addInstance id body).2.mounted.get? other
      = if id = other then some c.instances.length else c.mounted.get? other := by
  show (c.mounted.insert id c.instances.length).get? other = _
  simp only [OrderedMap.get?_insert, beq_iff_eq]

theorem listenersOf_subscribe (c : Client P) (id other : String) (r : Reaction P) :
    (c.subscribe id r).2.listenersOf other
      = if id = other then c.listenersOf other ++ [(c.nextListener, r)]
        else c.listenersOf other := by
  simp only [Client.listenersOf, Client.subscribe, OrderedMap.get?_insert]
  by_cases h : id = other <;> simp [h]

theorem listenersOf_addInstance (c : Client P) (id other : String) (body : P.Body) :
    (c.addInstance id body).2.listenersOf other
      = if id = other then c.listenersOf other ++ [(c.nextListener, .rerender c.instances.length)]
        else c.listenersOf other :=
  listenersOf_subscribe c id other (.rerender c.instances.length)

theorem listenersOf_unsubscribe {c : Client P} (nodup : c.listeners.keys.Nodup)
    (id other : String) (l : Nat) :
    (c.unsubscribe id l).2.listenersOf other
      = if id = other then (c.listenersOf other).filter (·.1 != l) else c.listenersOf other := by
  simp only [Client.unsubscribe]
  split
  · next h =>
    have empty : (c.listenersOf id).filter (·.1 != l) = [] := by simpa using h
    rw [Client.listenersOf, get?_erase nodup]
    by_cases hid : id = other
    · rw [if_pos hid, if_pos hid, ← hid, empty]
      rfl
    · rw [if_neg hid, if_neg hid]
      rfl
  · simp only [Client.listenersOf, OrderedMap.get?_insert]
    by_cases hid : id = other <;> simp [hid]

theorem detach_instances (c : Client P) (n : Nat) (i : Instance P) :
    (c.detach n i).2.instances
      = (c.modifyInstance n fun i => { i with mounted := false }).instances := by
  simp only [Client.detach]
  split <;> rfl

theorem instance?_detach (c : Client P) (n m : Nat) (i : Instance P) :
    (c.detach n i).2.instance? m
      = if n = m then (c.instance? m).map fun i => { i with mounted := false }
        else c.instance? m := by
  rw [← instance?_modify, Client.instance?, detach_instances]
  rfl

theorem detach_stops (c : Client P) {n : Nat} {i : Instance P} (found : c.instance? n = some i) :
    Stopped (c.detach n i).2 n := by
  refine ⟨{ i with mounted := false }, ?_, rfl⟩
  rw [instance?_detach, if_pos rfl, found]
  rfl

theorem mounted_detach (c : Client P) (n : Nat) (i : Instance P) :
    (c.detach n i).2.mounted
      = if c.mounted.get? i.element = some n then c.mounted.erase i.element else c.mounted := by
  simp only [Client.detach, Client.modifyInstance]
  by_cases h : c.mounted.get? i.element = some n <;> simp [h, Client.modifyRecord]

/-- An instance that is stopped takes its own entry with it at most. -/
theorem get?_mounted_detach {c : Client P} (keys : c.mounted.keys.Nodup) {n m : Nat}
    (i : Instance P) {id : String} (stored : c.mounted.get? id = some m) (other : m ≠ n) :
    (c.detach n i).2.mounted.get? id = some m := by
  rw [mounted_detach]
  split
  · next mine =>
    rw [get?_erase keys, if_neg]
    · exact stored
    · intro same
      rw [same, stored] at mine
      exact other (Option.some.inj mine)
  · exact stored

/-- An instance that is displaced takes its own entries with it at most. -/
theorem get?_mounted_displace {c : Client P} (keys : c.mounted.keys.Nodup) {id other : String}
    {n m : Nat} (i : Instance P) (displaced : c.mounted.get? id = some n)
    (stored : c.mounted.get? other = some m) (ne : m ≠ n) :
    ((c.takeMounted id).2.detach n i).2.mounted.get? other = some m := by
  have taken : (c.takeMounted id).2.mounted.get? other = some m := by
    rw [Client.takeMounted, get?_erase keys, if_neg]
    · exact stored
    · rintro rfl
      exact ne (Option.some.inj (stored.symm.trans displaced))
  exact get?_mounted_detach (OrderedMap.nodup_keys_erase keys id) i taken ne

theorem listeners_detach (c : Client P) (n : Nat) (i : Instance P) :
    (c.detach n i).2.listeners = c.listeners ∧ (c.detach n i).2.abandoned = c.abandoned := by
  simp only [Client.detach]
  split <;> exact ⟨rfl, rfl⟩

theorem endSubscription_eq (c : Client P) (n : Nat) :
    (c.endSubscription n).2 = c ∨ ∃ i l, c.instance? n = some i ∧ i.listener = some l ∧
      (c.endSubscription n).2
        = (c.unsubscribe i.element l).2.modifyInstance n fun i => { i with listener := none } := by
  unfold Client.endSubscription
  split
  · exact .inl rfl
  · next i found =>
    dsimp only
    split
    · exact .inl rfl
    · next l listener => exact .inr ⟨i, l, found, listener, rfl⟩

theorem getElem?_foldl_modify (ns : List Nat) (f : Instance P → Instance P)
    (idempotent : ∀ i, f (f i) = f i) (is : List (Instance P)) (m : Nat) :
    (ns.foldl (fun is n => is.modify n f) is)[m]?
      = if m ∈ ns then is[m]?.map f else is[m]? := by
  induction ns generalizing is with
  | nil => simp
  | cons n ns ih =>
    rw [List.foldl_cons, ih]
    by_cases hn : n = m
    · subst hn
      by_cases hm : n ∈ ns <;> simp [hm, Function.comp_def, idempotent]
    · have hmn : m ≠ n := fun h => hn h.symm
      simp [hn, hmn]

theorem instance?_clear (c : Client P) (m : Nat) :
    c.clear.2.instance? m
      = if m ∈ c.mounted.entries.map (·.2)
        then (c.instance? m).map fun i => { i with mounted := false } else c.instance? m :=
  getElem?_foldl_modify _ (fun i => { i with mounted := false }) (fun _ => rfl) c.instances m

/-- If whoever is alive is in the table, nobody is alive after starting over. -/
theorem stopped_of_clear {c : Client P}
    (inTable : ∀ n i, Alive c n i → c.mounted.get? i.element = some n) {n : Nat} {i : Instance P} :
    ¬ Alive c.clear.2 n i := by
  rintro ⟨found, mounted⟩
  rw [instance?_clear] at found
  split at found
  · obtain ⟨j, _, rfl⟩ := Option.map_eq_some_iff.1 found
    cases mounted
  · next unlisted =>
    have stored := inTable n i ⟨found, mounted⟩
    exact unlisted (List.mem_map.2 ⟨_, OrderedMap.mem_of_get? stored, rfl⟩)

/-! ### Shifts -/

/-- What a change does to what is known of instances. -/
inductive Shift : Client P → Client P → Prop
  | elsewhere {c c'} (instances : c'.instances = c.instances) (mounted : c'.mounted = c.mounted)
      (listeners : c'.listeners = c.listeners) (next : c.nextListener ≤ c'.nextListener) :
      Shift c c'
  | modify (c n) {f : Instance P → Instance P} (element : ∀ i, (f i).element = i.element)
      (mounted : ∀ i, (f i).mounted = true → i.mounted = true)
      (listener : ∀ i, (f i).listener = i.listener ∨ (f i).listener = none) :
      Shift c (c.modifyInstance n f)
  | subscribe (c id r) : Shift c (c.subscribe id r).2
  | unsubscribe (c id l) : Shift c (c.unsubscribe id l).2
  | vacate (c id) : Shift c (c.takeMounted id).2
  | enter (c id body) : Shift c (c.addInstance id body).2
  | unlist (c : Client P) (id) : Shift c { c with listeners := c.listeners.erase id }
  | empty (c : Client P) : Shift c { c with mounted := ∅, listeners := ∅ }
  | trans {c c' c''} : Shift c c' → Shift c' c'' → Shift c c''

namespace Shift

theorem of_eq {c c' : Client P} (h : c' = c) : Shift c c' := by
  subst h
  exact .elsewhere rfl rfl rfl le_rfl

theorem stop (c : Client P) (n : Nat) :
    Shift c (c.modifyInstance n fun i => { i with mounted := false }) :=
  .modify c n (fun _ => rfl) (fun _ h => by cases h) (fun _ => .inl rfl)

theorem detach (c : Client P) (n : Nat) (i : Instance P) : Shift c (c.detach n i).2 := by
  have stopped := Shift.stop c n
  simp only [Client.detach]
  split
  · have vacated := stopped.trans (.vacate _ i.element)
    exact vacated.trans (.elsewhere rfl rfl rfl le_rfl)
  · exact stopped.trans (.elsewhere rfl rfl rfl le_rfl)

theorem endSubscription (c : Client P) (n : Nat) : Shift c (c.endSubscription n).2 := by
  unfold Client.endSubscription
  split
  · exact .of_eq rfl
  · next i _ =>
    dsimp only
    split
    · exact .of_eq rfl
    · next l _ =>
      have ended := Shift.unsubscribe c i.element l
      exact ended.trans (.modify _ n (fun _ => rfl) (fun _ h => h) (fun _ => .inr rfl))

theorem stopAll (numbers : List Nat) (c : Client P) :
    Shift c { c with
      instances := numbers.foldl (fun is n => is.modify n fun i => { i with mounted := false })
        c.instances } := by
  induction numbers generalizing c with
  | nil => exact .of_eq rfl
  | cons n numbers ih => exact (Shift.stop c n).trans (ih _)

theorem clear (c : Client P) : Shift c c.clear.2 := by
  have stopped := stopAll (c.mounted.entries.map (·.2)) c
  exact (stopped.trans (.empty _)).trans (.elsewhere rfl rfl rfl le_rfl)

theorem of_take {take : Client P → List (Due P) × Client P} (h : Take take) (c : Client P) :
    Shift c (take c).2 := by
  cases h with
  | takeCleanup e => exact .elsewhere rfl rfl rfl le_rfl
  | settleEffect e k =>
    show Shift c (c.settleEffect e k).2
    unfold Client.settleEffect
    split <;> exact .elsewhere rfl rfl rfl le_rfl
  | forget id => exact (Shift.unlist c id).trans (.elsewhere rfl rfl rfl le_rfl)
  | detach n i => exact .detach c n i
  | clear => exact .clear c

end Shift

/-! ### Changes -/

/-- Nothing of what is known of instances has changed. -/
structure Aside (c c' : Client P) : Prop where
  instances : c'.instances = c.instances
  mounted : c'.mounted = c.mounted
  listeners : c'.listeners = c.listeners
  next : c.nextListener ≤ c'.nextListener
  abandoned : c'.abandoned = c.abandoned

theorem Aside.refl (c : Client P) : Aside c c := ⟨rfl, rfl, rfl, le_rfl, rfl⟩

theorem Aside.shift {c c' : Client P} (h : Aside c c') : Shift c c' :=
  .elsewhere h.instances h.mounted h.listeners h.next

/-- A change to hook records, cells, contexts and waiting effects, and to nothing
    else. -/
structure Inward (c c' : Client P) : Prop extends Aside c c' where
  document : c'.document = c.document
  routers : c'.routers = c.routers

theorem Inward.refl (c : Client P) : Inward c c := ⟨.refl c, rfl, rfl⟩

/-- The small changes of the routers. -/
inductive RouterTurn : Client P → Client P → Prop
  | createRouter (c settings routes) : RouterTurn c (c.createRouter settings routes)
  | removeRouter (c id) : RouterTurn c (c.removeRouter id).2
  | findRoute (c id path) : RouterTurn c (c.findRoute id path).2
  | moveRouter (c id path params) : RouterTurn c (c.moveRouter id path params)

theorem RouterTurn.rest {c c' : Client P} (h : RouterTurn c c') :
    ∃ routers, c' = { c with routers } := by
  cases h with
  | findRoute id path =>
    unfold Client.findRoute
    split <;> exact ⟨_, rfl⟩
  | _ => exact ⟨_, rfl⟩

/-- The small changes that do not concern mounted components, by what they touch. -/
inductive Turn.Kind : Client P → Client P → Prop
  | inward {c c'} (h : Inward c c') : Turn.Kind c c'
  | routers {c c'} (h : RouterTurn c c') : Turn.Kind c c'
  | dropHandle (c n) : Turn.Kind c (c.dropHandle n)
  | subscribe (c id l) : Turn.Kind c (c.subscribe id (.call l)).2
  | document (c step) : Turn.Kind c (c.modifyDocument fun d => (DocumentStep.run d step).2)

theorem Turn.kind {c c' : Client P} (h : Turn c c') : Turn.Kind c c' := by
  cases h with
  | dropHandle n => exact .dropHandle c n
  | subscribe id l => exact .subscribe c id l
  | document step => exact .document c step
  | createRouter settings routes => exact .routers (.createRouter c settings routes)
  | removeRouter id => exact .routers (.removeRouter c id)
  | findRoute id path => exact .routers (.findRoute c id path)
  | moveRouter id path params => exact .routers (.moveRouter c id path params)
  | listen s l => exact .inward ⟨⟨rfl, rfl, rfl, Nat.le_succ _, rfl⟩, rfl, rfl⟩
  | useState id v =>
    unfold Client.useState
    dsimp only
    split <;> exact .inward ⟨⟨rfl, rfl, rfl, le_rfl, rfl⟩, rfl, rfl⟩
  | useCell id v =>
    unfold Client.useCell
    dsimp only
    split
    · split <;> exact .inward ⟨⟨rfl, rfl, rfl, le_rfl, rfl⟩, rfl, rfl⟩
    · exact .inward ⟨⟨rfl, rfl, rfl, le_rfl, rfl⟩, rfl, rfl⟩
  | useEffect id deps e =>
    unfold Client.useEffect
    dsimp only
    split <;> exact .inward ⟨⟨rfl, rfl, rfl, le_rfl, rfl⟩, rfl, rfl⟩
  | store s v =>
    unfold Client.store
    split
    · exact .inward (.refl c)
    · split <;> exact .inward ⟨⟨rfl, rfl, rfl, le_rfl, rfl⟩, rfl, rfl⟩
  | writeCell r v =>
    unfold Client.writeCell
    split <;> exact .inward ⟨⟨rfl, rfl, rfl, le_rfl, rfl⟩, rfl, rfl⟩
  | writeContext h v =>
    unfold Client.writeContext
    split
    · exact .inward (.refl c)
    · split <;> exact .inward ⟨⟨rfl, rfl, rfl, le_rfl, rfl⟩, rfl, rfl⟩
  | _ => exact .inward ⟨⟨rfl, rfl, rfl, le_rfl, rfl⟩, rfl, rfl⟩

/-- Of the changes that do not concern mounted components, one touches an
    instance and one adds a listener. -/
theorem Turn.aside {c c' : Client P} (h : Turn c c') :
    Aside c c' ∨ (∃ n, c' = c.dropHandle n) ∨ ∃ id l, c' = (c.subscribe id (.call l)).2 := by
  cases h.kind with
  | inward h => exact .inl h.toAside
  | routers h =>
    obtain ⟨_, rfl⟩ := h.rest
    exact .inl ⟨rfl, rfl, rfl, le_rfl, rfl⟩
  | dropHandle n => exact .inr (.inl ⟨n, rfl⟩)
  | subscribe id l => exact .inr (.inr ⟨id, l, rfl⟩)
  | document step => exact .inl ⟨rfl, rfl, rfl, le_rfl, rfl⟩

theorem Turn.shift {c c' : Client P} (h : Turn c c') : Shift c c' := by
  rcases h.aside with aside | ⟨n, rfl⟩ | ⟨id, l, rfl⟩
  · exact aside.shift
  · exact .modify c n (fun _ => rfl) (fun _ h => h) (fun _ => .inl rfl)
  · exact .subscribe c id _

theorem beginRender_eq (c : Client P) (n : Nat) :
    (c.beginRender n).2 = c ∨
      (c.beginRender n).2 = c.modifyInstance n fun i => { i with rendering := true } := by
  unfold Client.beginRender
  split
  · exact .inl rfl
  · split
    · exact .inr rfl
    · exact .inl rfl

theorem Change.shift {c c' : Client P} (h : Change c c') : Shift c c' := by
  cases h with
  | subscribe id r => exact .subscribe c id r
  | unsubscribe id l => exact .unsubscribe c id l
  | beginRender n =>
    rcases beginRender_eq c n with same | begun
    · exact .of_eq same
    · rw [begun]
      exact .modify c n (fun _ => rfl) (fun _ h => h) (fun _ => .inl rfl)
  | endRender n => exact .modify c n (fun _ => rfl) (fun _ h => h) (fun _ => .inl rfl)
  | takeMounted id => exact .vacate c id
  | addInstance id body => exact .enter c id body
  | endSubscription n => exact .endSubscription c n
  | dropHandle n => exact (Turn.dropHandle c n).shift
  | useState id v => exact (Turn.useState c id v).shift
  | useCell id v => exact (Turn.useCell c id v).shift
  | useEffect id deps e => exact (Turn.useEffect c id deps e).shift
  | store s v => exact (Turn.store c s v).shift
  | listen s l => exact (Turn.listen c s l).shift
  | writeCell r v => exact (Turn.writeCell c r v).shift
  | writeContext h v => exact (Turn.writeContext c h v).shift
  | findRoute id path => exact (Turn.findRoute c id path).shift
  | _ => exact .elsewhere rfl rfl rfl le_rfl

theorem Path.shift {c c' : Client P} (h : Path c c') : Shift c c' := by
  induction h with
  | refl => exact .of_eq rfl
  | change _ step ih => exact ih.trans step.shift
  | beginPass _ id ih => exact ih.trans (.elsewhere rfl rfl rfl le_rfl)
  | endPass _ previous ih => exact ih.trans (.elsewhere rfl rfl rfl le_rfl)
  | take _ step ih => exact ih.trans (.of_take step _)
  | note _ e ih => exact ih.trans (.elsewhere rfl rfl rfl le_rfl)
  | @settle c' _ ih =>
    refine ih.trans ?_
    unfold Client.settle
    split
    · exact (Shift.empty c').trans (.elsewhere rfl rfl rfl le_rfl)
    · exact .of_eq rfl

/-! ### Flags -/

/-- Every instance stays, on its element, and a flag that is set was set. -/
def Ages (c c' : Client P) : Prop :=
  ∀ n i, c.instance? n = some i →
    ∃ i', c'.instance? n = some i' ∧ i'.element = i.element ∧
      (i'.mounted = true → i.mounted = true)

namespace Ages

theorem of_eq {c c' : Client P} (h : c'.instances = c.instances) : Ages c c' := by
  intro n i hi
  refine ⟨i, ?_, rfl, fun mounted => mounted⟩
  rw [Client.instance?, h]
  exact hi

theorem trans {c c' c'' : Client P} (h : Ages c c') (h' : Ages c' c'') : Ages c c'' := by
  intro n i hi
  obtain ⟨i', hi', element, mounted⟩ := h n i hi
  obtain ⟨i'', hi'', element', mounted'⟩ := h' n i' hi'
  exact ⟨i'', hi'', element'.trans element, mounted ∘ mounted'⟩

theorem stopped {c c' : Client P} (h : Ages c c') {n : Nat} (stopped : Stopped c n) :
    Stopped c' n := by
  obtain ⟨i, hi, cleared⟩ := stopped
  obtain ⟨i', hi', _, mounted⟩ := h n i hi
  refine ⟨i', hi', ?_⟩
  by_contra set
  have : i.mounted = true := mounted (by simpa using set)
  rw [cleared] at this
  cases this

theorem length {c c' : Client P} (h : Ages c c') : c.instances.length ≤ c'.instances.length := by
  by_contra shorter
  have lt : c'.instances.length < c.instances.length := Nat.lt_of_not_le shorter
  obtain ⟨_, found, _⟩ := h c'.instances.length _ (List.getElem?_eq_getElem lt)
  exact absurd (lt_of_instance? found) (lt_irrefl _)

/-- If no instance was made in between, every instance that is alive was so
    before. -/
theorem alive {c c' : Client P} (h : Ages c c') (none_new : c'.instances.length = c.instances.length)
    {n : Nat} {i' : Instance P} (alive : Alive c' n i') :
    ∃ i, Alive c n i ∧ i.element = i'.element := by
  have lt : n < c.instances.length := none_new ▸ lt_of_instance? alive.1
  obtain ⟨i'', found, element, mounted⟩ := h n _ (List.getElem?_eq_getElem lt)
  obtain rfl : i' = i'' := Option.some.inj (alive.1.symm.trans found)
  exact ⟨_, ⟨List.getElem?_eq_getElem lt, mounted alive.2⟩, element.symm⟩

end Ages

theorem Shift.ages {c c' : Client P} (h : Shift c c') : Ages c c' := by
  induction h with
  | elsewhere instances => exact .of_eq instances
  | modify c n element mounted =>
    intro m i hi
    rw [instance?_modify, hi]
    split
    · exact ⟨_, rfl, element i, mounted i⟩
    · exact ⟨i, rfl, rfl, fun h => h⟩
  | enter c id body =>
    intro m i hi
    have lt := lt_of_instance? hi
    rw [instance?_addInstance, if_neg lt.ne, hi]
    exact ⟨i, rfl, rfl, fun h => h⟩
  | trans _ _ ih ih' => exact ih.trans ih'
  | _ => exact .of_eq rfl

theorem Path.ages {c c' : Client P} (h : Path c c') : Ages c c' := h.shift.ages

/-! ### Numbers, elements and listeners -/

/-- How numbers, elements and listeners fit together. -/
structure Wired (c : Client P) : Prop where
  mountedKeys : c.mounted.keys.Nodup
  listenerKeys : c.listeners.keys.Nodup
  stored : ∀ id n, c.mounted.get? id = some n → ∃ i, c.instance? n = some i ∧ i.element = id
  below : ∀ id, ∀ e ∈ c.listenersOf id, e.1 < c.nextListener
  numbered : ∀ n i l, c.instance? n = some i → i.listener = some l → l < c.nextListener
  distinct : ∀ n m i j l, c.instance? n = some i → c.instance? m = some j →
    i.listener = some l → j.listener = some l → n = m

theorem wired_new (document : Document) : Wired (Client.new document : Client P) :=
  ⟨List.nodup_nil, List.nodup_nil, fun _ _ h => (nomatch h), fun _ _ h => (nomatch h),
    fun _ _ _ h => (nomatch h), fun _ _ _ _ _ h => (nomatch h)⟩

/-- The tables have become smaller at most, and the instances are the same but
    for their flags and the ends of subscriptions. -/
theorem Wired.of_fewer {c c' : Client P} (wired : Wired c) (mountedKeys : c'.mounted.keys.Nodup)
    (listenerKeys : c'.listeners.keys.Nodup) (next : c.nextListener ≤ c'.nextListener)
    (mounted : ∀ id n, c'.mounted.get? id = some n → c.mounted.get? id = some n)
    (listeners : ∀ id, ∀ e ∈ c'.listenersOf id, e ∈ c.listenersOf id)
    (ages : Ages c c')
    (known : ∀ n i', c'.instance? n = some i' → ∃ i, c.instance? n = some i ∧
      (i'.listener = i.listener ∨ i'.listener = none)) : Wired c' := by
  have listener {n : Nat} {i' : Instance P} {l : Nat} (hi' : c'.instance? n = some i')
      (hl : i'.listener = some l) : ∃ i, c.instance? n = some i ∧ i.listener = some l := by
    obtain ⟨i, hi, same | ended⟩ := known n i' hi'
    · exact ⟨i, hi, same ▸ hl⟩
    · rw [ended] at hl
      cases hl
  refine ⟨mountedKeys, listenerKeys, ?_, ?_, ?_, ?_⟩
  · intro id n hn
    obtain ⟨i, hi, element⟩ := wired.stored id n (mounted id n hn)
    obtain ⟨i', hi', same, _⟩ := ages n i hi
    exact ⟨i', hi', same.trans element⟩
  · intro id e he
    exact (wired.below id e (listeners id e he)).trans_le next
  · intro n i' l hi' hl
    obtain ⟨i, hi, hl⟩ := listener hi' hl
    exact (wired.numbered n i l hi hl).trans_le next
  · intro n m i' j' l hi' hj' hl hl'
    obtain ⟨i, hi, hl⟩ := listener hi' hl
    obtain ⟨j, hj, hl'⟩ := listener hj' hl'
    exact wired.distinct n m i j l hi hj hl hl'

theorem Shift.wired {c c' : Client P} (h : Shift c c') (wired : Wired c) : Wired c' := by
  have unchanged (c : Client P) : ∀ n i, c.instance? n = some i →
      ∃ j, c.instance? n = some j ∧ (i.listener = j.listener ∨ i.listener = none) :=
    fun _ i hi => ⟨i, hi, .inl rfl⟩
  induction h with
  | @elsewhere c c' instances mounted listeners next =>
    refine wired.of_fewer (by rw [mounted]; exact wired.mountedKeys)
      (by rw [listeners]; exact wired.listenerKeys) next (by rw [mounted]; exact fun _ _ h => h)
      ?_ (.of_eq instances) ?_
    · intro id e he
      rwa [Client.listenersOf, listeners] at he
    · intro n i hi
      rw [Client.instance?, instances] at hi
      exact unchanged c n i hi
  | modify c n element mounted listener =>
    refine wired.of_fewer wired.mountedKeys wired.listenerKeys le_rfl (fun _ _ h => h)
      (fun _ _ h => h) (Shift.ages (.modify c n element mounted listener)) ?_
    intro m i' hi'
    rw [instance?_modify] at hi'
    split at hi'
    · obtain ⟨i, hi, rfl⟩ := Option.map_eq_some_iff.1 hi'
      exact ⟨i, hi, listener i⟩
    · exact unchanged c m i' hi'
  | subscribe c id r =>
    refine ⟨wired.mountedKeys, OrderedMap.nodup_keys_insert wired.listenerKeys _ _, wired.stored,
      ?_, ?_, wired.distinct⟩
    · intro other e he
      show e.1 < c.nextListener + 1
      rw [listenersOf_subscribe] at he
      split at he
      · rcases List.mem_append.1 he with he | he
        · exact (wired.below other e he).trans (Nat.lt_succ_self _)
        · obtain rfl := List.mem_singleton.1 he
          exact Nat.lt_succ_self _
      · exact (wired.below other e he).trans (Nat.lt_succ_self _)
    · intro n i l hi hl
      exact (wired.numbered n i l hi hl).trans (Nat.lt_succ_self _)
  | unsubscribe c id l =>
    refine wired.of_fewer wired.mountedKeys ?_ le_rfl (fun _ _ h => h) ?_ (.of_eq rfl)
      (unchanged c)
    · simp only [Client.unsubscribe]
      split
      · exact OrderedMap.nodup_keys_erase wired.listenerKeys _
      · exact OrderedMap.nodup_keys_insert wired.listenerKeys _ _
    · intro other e he
      rw [listenersOf_unsubscribe wired.listenerKeys] at he
      split at he
      · exact List.mem_of_mem_filter he
      · exact he
  | vacate c id =>
    refine wired.of_fewer (OrderedMap.nodup_keys_erase wired.mountedKeys _) wired.listenerKeys
      le_rfl ?_ (fun _ _ h => h) (.of_eq rfl) (unchanged c)
    intro other n hn
    rw [Client.takeMounted, get?_erase wired.mountedKeys] at hn
    split at hn
    · cases hn
    · exact hn
  | enter c id body =>
    -- the new instance has a new number and a new listener
    have found {n : Nat} {i : Instance P} (hi : (c.addInstance id body).2.instance? n = some i) :
        (n = c.instances.length ∧ i.listener = some c.nextListener) ∨ c.instance? n = some i := by
      rw [instance?_addInstance] at hi
      split at hi
      · next hn =>
        obtain rfl := Option.some.inj hi
        exact .inl ⟨hn, rfl⟩
      · exact .inr hi
    refine ⟨OrderedMap.nodup_keys_insert wired.mountedKeys _ _,
      OrderedMap.nodup_keys_insert wired.listenerKeys _ _, ?_, ?_, ?_, ?_⟩
    · intro other n hn
      rw [mounted_addInstance] at hn
      split at hn
      · next hid =>
        obtain rfl := Option.some.inj hn
        exact ⟨_, by rw [instance?_addInstance, if_pos rfl], hid⟩
      · obtain ⟨i, hi, element⟩ := wired.stored other n hn
        rw [instance?_addInstance, if_neg (lt_of_instance? hi).ne]
        exact ⟨i, hi, element⟩
    · intro other e he
      show e.1 < c.nextListener + 1
      rw [listenersOf_addInstance] at he
      split at he
      · rcases List.mem_append.1 he with he | he
        · exact (wired.below other e he).trans (Nat.lt_succ_self _)
        · obtain rfl := List.mem_singleton.1 he
          exact Nat.lt_succ_self _
      · exact (wired.below other e he).trans (Nat.lt_succ_self _)
    · intro n i l hi hl
      show l < c.nextListener + 1
      rcases found hi with ⟨_, fresh⟩ | hi
      · obtain rfl := Option.some.inj (hl.symm.trans fresh)
        exact Nat.lt_succ_self _
      · exact (wired.numbered n i l hi hl).trans (Nat.lt_succ_self _)
    · intro n m i j l hi hj hl hl'
      rcases found hi with ⟨hn, fresh⟩ | hi <;> rcases found hj with ⟨hm, fresh'⟩ | hj
      · rw [hn, hm]
      · obtain rfl := Option.some.inj (hl.symm.trans fresh)
        exact absurd (wired.numbered m j _ hj hl') (lt_irrefl _)
      · obtain rfl := Option.some.inj (hl'.symm.trans fresh')
        exact absurd (wired.numbered n i _ hi hl) (lt_irrefl _)
      · exact wired.distinct n m i j l hi hj hl hl'
  | unlist c id =>
    refine wired.of_fewer wired.mountedKeys (OrderedMap.nodup_keys_erase wired.listenerKeys _)
      le_rfl (fun _ _ h => h) ?_ (.of_eq rfl) (unchanged c)
    intro other e he
    rw [Client.listenersOf, get?_erase wired.listenerKeys] at he
    split at he
    · cases he
    · exact he
  | empty c =>
    exact wired.of_fewer List.nodup_nil List.nodup_nil le_rfl (fun _ _ h => (nomatch h))
      (fun _ _ h => (nomatch h)) (.of_eq rfl) (unchanged c)
  | trans _ _ ih ih' => exact ih' (ih wired)

theorem Path.wired {c c' : Client P} (h : Path c c') (wired : Wired c) : Wired c' :=
  h.shift.wired wired

/-! ### Listeners of instances -/

/-- Whoever renders an instance again is registered under its element. -/
def Subscribed (c : Client P) : Prop :=
  ∀ id l n, (l, .rerender n) ∈ c.listenersOf id → ∃ i, c.instance? n = some i ∧ i.element = id

namespace Subscribed

theorem of_fewer {c c' : Client P} (subscribed : Subscribed c) (ages : Ages c c')
    (listeners : ∀ id l n, (l, .rerender n) ∈ c'.listenersOf id →
      (l, .rerender n) ∈ c.listenersOf id) : Subscribed c' := by
  intro id l n hl
  obtain ⟨i, hi, element⟩ := subscribed id l n (listeners id l n hl)
  obtain ⟨i', hi', same, _⟩ := ages n i hi
  exact ⟨i', hi', same.trans element⟩

theorem addInstance {c : Client P} (subscribed : Subscribed c) (id : String) (body : P.Body) :
    Subscribed (c.addInstance id body).2 := by
  intro other l n hl
  have known (h : (l, .rerender n) ∈ c.listenersOf other) :
      ∃ i, (c.addInstance id body).2.instance? n = some i ∧ i.element = other := by
    obtain ⟨i, found, element⟩ := subscribed other l n h
    rw [instance?_addInstance, if_neg (lt_of_instance? found).ne]
    exact ⟨i, found, element⟩
  rw [listenersOf_addInstance] at hl
  split at hl
  · next hid =>
    rcases List.mem_append.1 hl with hl | hl
    · exact known hl
    · obtain ⟨rfl, rfl⟩ : l = c.nextListener ∧ n = c.instances.length := by simpa using hl
      rw [instance?_addInstance, if_pos rfl]
      exact ⟨_, rfl, hid⟩
  · exact known hl

end Subscribed

/-! ### What is found later -/

/-- What stands in the tables was there before or has a new number. -/
structure Renews (c c' : Client P) : Prop where
  next : c.nextListener ≤ c'.nextListener
  length : c.instances.length ≤ c'.instances.length
  mounted : ∀ id n, c'.mounted.get? id = some n →
    c.mounted.get? id = some n ∨ c.instances.length ≤ n
  listeners : ∀ id, ∀ e ∈ c'.listenersOf id, e ∈ c.listenersOf id ∨ c.nextListener ≤ e.1

theorem Shift.renews {c c' : Client P} (h : Shift c c') (wired : Wired c) : Renews c c' := by
  induction h with
  | elsewhere instances mounted listeners next =>
    refine ⟨next, by rw [instances], by rw [mounted]; exact fun _ _ h => .inl h, ?_⟩
    intro id e he
    rw [Client.listenersOf, listeners] at he
    exact .inl he
  | modify c n =>
    exact ⟨le_rfl, by simp [Client.modifyInstance], fun _ _ h => .inl h, fun _ _ h => .inl h⟩
  | subscribe c id r =>
    refine ⟨Nat.le_succ _, le_rfl, fun _ _ h => .inl h, ?_⟩
    intro other e he
    rw [listenersOf_subscribe] at he
    split at he
    · rcases List.mem_append.1 he with he | he
      · exact .inl he
      · obtain rfl := List.mem_singleton.1 he
        exact .inr le_rfl
    · exact .inl he
  | unsubscribe c id l =>
    refine ⟨le_rfl, le_rfl, fun _ _ h => .inl h, ?_⟩
    intro other e he
    rw [listenersOf_unsubscribe wired.listenerKeys] at he
    split at he
    · exact .inl (List.mem_of_mem_filter he)
    · exact .inl he
  | vacate c id =>
    refine ⟨le_rfl, le_rfl, ?_, fun _ _ h => .inl h⟩
    intro other n hn
    rw [Client.takeMounted, get?_erase wired.mountedKeys] at hn
    split at hn
    · cases hn
    · exact .inl hn
  | enter c id body =>
    refine ⟨Nat.le_succ _, ?_, ?_, ?_⟩
    · exact (Shift.ages (.enter c id body)).length
    · intro other n hn
      rw [mounted_addInstance] at hn
      split at hn
      · obtain rfl := Option.some.inj hn
        exact .inr le_rfl
      · exact .inl hn
    · intro other e he
      rw [listenersOf_addInstance] at he
      split at he
      · rcases List.mem_append.1 he with he | he
        · exact .inl he
        · obtain rfl := List.mem_singleton.1 he
          exact .inr le_rfl
      · exact .inl he
  | unlist c id =>
    refine ⟨le_rfl, le_rfl, fun _ _ h => .inl h, ?_⟩
    intro other e he
    rw [Client.listenersOf, get?_erase wired.listenerKeys] at he
    split at he
    · cases he
    · exact .inl he
  | empty c => exact ⟨le_rfl, le_rfl, fun _ _ h => (nomatch h), fun _ _ h => (nomatch h)⟩
  | trans first _ ih ih' =>
    have before := ih wired
    have after := ih' (first.wired wired)
    refine ⟨before.next.trans after.next, before.length.trans after.length, ?_, ?_⟩
    · intro id n hn
      rcases after.mounted id n hn with hn | new
      · exact before.mounted id n hn
      · exact .inr (before.length.trans new)
    · intro id e he
      rcases after.listeners id e he with he | new
      · exact before.listeners id e he
      · exact .inr (before.next.trans new)

theorem Path.renews {c c' : Client P} (h : Path c c') (wired : Wired c) : Renews c c' :=
  h.shift.renews wired

/-! ### The table of mounted components -/

/-- The table of mounted components is as it was. -/
def SameTable (c c' : Client P) : Prop := c'.mounted = c.mounted

theorem sameTable_composes : Composes (SameTable (P := P)) where
  refl _ := rfl
  trans first second := second.trans first

theorem sameTable_endSubscription (c : Client P) (n : Nat) :
    SameTable c (c.endSubscription n).2 := by
  rcases endSubscription_eq c n with same | ⟨i, l, _, _, ended⟩
  · rw [same]
    exact sameTable_composes.refl c
  · rw [ended]
    rfl

section

variable {calls : Calls P μ} (quietly : ∀ k, (calls.cleanup k).Moves SameTable)

include quietly

theorem sameTable_cleanUp (id : String) : (calls.cleanUp id).Moves SameTable :=
  sameTable_composes.moves_undoAll (fun _ => rfl) (fun _ _ => rfl) quietly

theorem sameTable_tearDown {n : Nat} {i : Instance P} {w w' : World P μ}
    (found : w.client.instance? n = some i) (absent : w.client.mounted.get? i.element = none)
    (h : calls.tearDown n w = some ((), w')) : SameTable w.client w'.client := by
  have composes := sameTable_composes (P := P)
  unfold Calls.tearDown at h
  rw [Act.look_bind, found] at h
  obtain ⟨_, w₁, undone, h⟩ := Act.bind_eq_some.1 h
  have detached : SameTable w.client (w.client.detach n i).2 := by
    rw [SameTable, mounted_detach, absent, if_neg (by simp)]
  have during := composes.trans detached
    (composes.moves_forM_undo (fun _ _ => rfl) quietly _ _ _ _ undone)
  rw [Act.through_bind] at h
  have left := composes.trans during (sameTable_endSubscription w₁.client n)
  split at h
  · exact composes.trans left (sameTable_cleanUp quietly i.element _ _ _ h)
  · obtain rfl : _ = w' := congrArg Prod.snd (Option.some.inj h)
    exact left

theorem mounted_unmountElement {id : String} {w w' : World P μ} (wired : Wired w.client)
    (h : calls.unmountElement id w = some ((), w')) :
    w'.client.mounted = w.client.mounted.erase id := by
  unfold Calls.unmountElement at h
  rw [Act.through_bind] at h
  cases stored : w.client.mounted.get? id with
  | none =>
    have absent : (w.client.takeMounted id).1 = none := stored
    rw [absent] at h
    obtain rfl : _ = w' := congrArg Prod.snd (Option.some.inj h)
    rfl
  | some n =>
    have present : (w.client.takeMounted id).1 = some n := stored
    rw [present] at h
    obtain ⟨i, found, element⟩ := wired.stored id n stored
    have absent : (w.client.mounted.erase id).get? i.element = none := by
      rw [element]
      exact OrderedMap.get?_erase_self id wired.mountedKeys
    exact sameTable_tearDown quietly (w := { w with client := (w.client.takeMounted id).2 })
      found absent h

end

end PageTree.Live
