/-
  PageTree/Proofs/Live/Placement.lean
  ===================================
  **One mounted component for an element.**

  A stride is what happens to mounted components between two moments at which
  callbacks may look at the client.  In particular a mount takes the instance it
  replaces out of the table and clears its flag in one stride, and then the
  cleanups of the element run.  A mount that follows is sound only if they have
  left the element vacant, and so is forgetting an element that is purged.

    * `Stride.placed`: strides keep the tables sound.
    * `sound_addInstance_iff`, `sound_forget_iff`: entering an instance and
      forgetting an element keep them sound exactly if the element is vacant.
    * `one_instance_per_element`: as long as cleanups mount nothing, a run is a
      course of strides.
    * `two_instances_on_one_element`: a cleanup that mounts breaks it.
-/
import PageTree.Proofs.Live.Instances

namespace PageTree.Live

variable {P : Callbacks} {μ α : Type}

/-! ### Sound tables -/

/-- No instance is alive on the element. -/
def Vacant (c : Client P) (id : String) : Prop := ∀ n i, Alive c n i → i.element ≠ id

/-- Whether a listener renders the instance again. -/
def Reaction.renders (n : Nat) : Reaction P → Bool
  | .call _ => false
  | .rerender m => m == n

/-- The listeners of an element that render the instance again. -/
def updates (c : Client P) (id : String) (n : Nat) : List (Nat × Reaction P) :=
  (c.listenersOf id).filter (·.2.renders n)

/-- Every instance that is alive is the one in the table under its element, its
    listener is registered there exactly once, and no listener there belongs to
    another instance that is alive. -/
structure Sound (c : Client P) : Prop where
  kept : c.abandoned = false
  inTable : ∀ n i, Alive c n i → c.mounted.get? i.element = some n
  registered : ∀ n i, Alive c n i →
    ∃ l, i.listener = some l ∧ updates c i.element n = [(l, .rerender n)]
  alone : ∀ n i, Alive c n i → ∀ l m j, (l, .rerender m) ∈ c.listenersOf i.element → m ≠ n →
    c.instance? m = some j → j.mounted = false

/-- What holds between any two strides. -/
structure Placed (c : Client P) : Prop extends Wired c, Sound c where
  subscribed : Subscribed c

theorem placed_new (document : Document) : Placed (Client.new document : Client P) := by
  have nobody {n : Nat} {i : Instance P} : ¬ Alive (Client.new document) n i := by
    rintro ⟨found, _⟩
    cases found
  refine ⟨wired_new document, ⟨rfl, ?_, ?_, ?_⟩, fun _ _ _ h => (nomatch h)⟩
  · intro n i alive
    exact absurd alive nobody
  · intro n i alive
    exact absurd alive nobody
  · intro n i alive
    exact absurd alive nobody

theorem Sound.listed {c : Client P} (sound : Sound c) {n : Nat} {i : Instance P}
    (alive : Alive c n i) : ∃ l, (l, .rerender n) ∈ c.listenersOf i.element := by
  obtain ⟨l, _, once⟩ := sound.registered n i alive
  have member : (l, .rerender n) ∈ updates c i.element n := by simp [once]
  exact ⟨l, List.mem_of_mem_filter member⟩

/-- The tables are placed if whoever is alive was alive before and finds the same
    under its element, and no listener that renders an instance is new. -/
theorem Placed.of_fewer {c c' : Client P} (placed : Placed c) (way : Path c c')
    (kept : c'.abandoned = c.abandoned)
    (listeners : ∀ id l n, (l, .rerender n) ∈ c'.listenersOf id →
      (l, .rerender n) ∈ c.listenersOf id)
    (alive : ∀ n i', Alive c' n i' → ∃ i, Alive c n i ∧ i'.element = i.element ∧
      i'.listener = i.listener ∧ c'.mounted.get? i.element = c.mounted.get? i.element ∧
      updates c' i.element n = updates c i.element n) : Placed c' := by
  have wired := way.wired placed.toWired
  refine ⟨wired, ⟨kept.trans placed.kept, ?_, ?_, ?_⟩,
    placed.subscribed.of_fewer way.ages listeners⟩
  · intro n i' alive'
    obtain ⟨i, before, element, _, same, _⟩ := alive n i' alive'
    rw [element, same]
    exact placed.inTable n i before
  · intro n i' alive'
    obtain ⟨i, before, element, listener, _, same⟩ := alive n i' alive'
    rw [element, listener, same]
    exact placed.registered n i before
  · intro n i' alive' l m j' hl other hj'
    by_contra set
    obtain ⟨j, before, element, _⟩ := alive m j' ⟨hj', by simpa using set⟩
    obtain ⟨i, before', element', _⟩ := alive n i' alive'
    rw [element'] at hl
    have stopped := placed.alone n i before' l m j (listeners _ l m hl) other before.1
    rw [before.2] at stopped
    cases stopped

/-! ### Changes of the tables -/

theorem alive_detach {c : Client P} {n m : Nat} {i j : Instance P}
    (alive : Alive (c.detach n i).2 m j) : m ≠ n ∧ Alive c m j := by
  obtain ⟨found, mounted⟩ := alive
  rw [instance?_detach] at found
  split at found
  · obtain ⟨j', _, rfl⟩ := Option.map_eq_some_iff.1 found
    cases mounted
  · next other => exact ⟨fun h => other h.symm, found, mounted⟩

theorem endSubscription_answer {c : Client P} {n : Nat} {i : Instance P}
    (found : c.instance? n = some i) :
    (c.endSubscription n).1 = ((c.endSubscription n).2.listenersOf i.element).isEmpty := by
  unfold Client.endSubscription
  rw [found]

theorem updates_unsubscribe {c : Client P} (nodup : c.listeners.keys.Nodup) (id other : String)
    {l l' n : Nat} (once : updates c other n = [(l', .rerender n)]) (ne : l' ≠ l) :
    updates (c.unsubscribe id l).2 other n = updates c other n := by
  rw [updates, listenersOf_unsubscribe nodup]
  split
  · have kept : (updates c other n).filter (·.1 != l) = updates c other n := by
      simp [once, ne]
    rw [← kept, updates, List.filter_filter, List.filter_filter]
    simp only [Bool.and_comm]
  · rfl

/-! ### Strides -/

/-- What happens to mounted components between two moments at which callbacks may
    look. -/
inductive Stride : Client P → Client P → Prop
  | aside {c c'} (way : Path c c') (same : Aside c c') : Stride c c'
  | touch {c n} {f : Instance P → Instance P} (way : Path c (c.modifyInstance n f))
      (keeps : ∀ i, (f i).element = i.element ∧ (f i).mounted = i.mounted ∧
        (f i).listener = i.listener) : Stride c (c.modifyInstance n f)
  | subscribe (c id l) : Stride c (c.subscribe id (.call l)).2
  | enter {c id} (body) (vacant : Vacant c id) : Stride c (c.addInstance id body).2
  | stop {c n i} (found : c.instance? n = some i) : Stride c (c.detach n i).2
  | displace {c id n i} (stored : c.mounted.get? id = some n) (found : c.instance? n = some i) :
      Stride c ((c.takeMounted id).2.detach n i).2
  | leave {c n} (stopped : Stopped c n) : Stride c (c.endSubscription n).2
  | forget {c id} (vacant : Vacant c id) : Stride c (c.forget id).2
  | clear (c) : Stride c c.clear.2

theorem Stride.path {c c' : Client P} (h : Stride c c') : Path c c' := by
  cases h with
  | aside way => exact way
  | touch way => exact way
  | subscribe id l => exact .change (.refl c) (.subscribe c id _)
  | enter body => exact .change (.refl c) (.addInstance c _ body)
  | @stop n i =>
    have stopped := Path.take (.refl c) (.detach n i)
    exact stopped
  | @displace id n i =>
    have taken := Path.take (.change (.refl c) (.takeMounted c id)) (.detach n i)
    exact taken
  | leave => exact .change (.refl c) (.endSubscription c _)
  | @forget id =>
    have forgotten := Path.take (.refl c) (.forget id)
    exact forgotten
  | clear =>
    have cleared := Path.take (.refl c) .clear
    exact cleared

/-- On sound tables only the instance in the table is alive on an element. -/
theorem Sound.vacant_of_absent {c : Client P} (sound : Sound c) {id : String}
    (absent : c.mounted.get? id = none) : Vacant c id := by
  rintro n i alive rfl
  have stored := sound.inTable n i alive
  rw [absent] at stored
  cases stored

theorem Placed.updates_length {c : Client P} (placed : Placed c) (id : String) :
    updates c id c.instances.length = [] := by
  rw [updates, List.filter_eq_nil_iff]
  rintro ⟨l, r⟩ member renders
  cases r with
  | call l => cases renders
  | rerender m =>
    obtain rfl : m = c.instances.length := by simpa [Reaction.renders] using renders
    obtain ⟨i, found, _⟩ := placed.subscribed id l _ member
    exact absurd (lt_of_instance? found) (lt_irrefl _)

theorem updates_addInstance (c : Client P) (id other : String) (body : P.Body) (n : Nat) :
    updates (c.addInstance id body).2 other n
      = if id = other ∧ c.instances.length = n
        then updates c other n ++ [(c.nextListener, .rerender n)] else updates c other n := by
  rw [updates, listenersOf_addInstance]
  by_cases hid : id = other
  · rw [if_pos hid, List.filter_append, List.filter_singleton, updates]
    by_cases hn : c.instances.length = n
    · simp [Reaction.renders, hid, hn]
    · have no_match : (c.instances.length == n) = false := by simp [hn]
      simp [Reaction.renders, hid, hn, no_match]
  · rw [if_neg hid, if_neg (fun h => hid h.1), updates]

theorem Placed.addInstance {c : Client P} (placed : Placed c) {id : String} (body : P.Body)
    (vacant : Vacant c id) : Placed (c.addInstance id body).2 := by
  have way : Path c (c.addInstance id body).2 := .change (.refl c) (.addInstance c id body)
  -- whoever is alive is new or was alive before, on another element
  have alive_or {n : Nat} {i : Instance P} (alive : Alive (c.addInstance id body).2 n i) :
      (n = c.instances.length ∧ i.element = id ∧ i.listener = some c.nextListener) ∨
        (n ≠ c.instances.length ∧ i.element ≠ id ∧ Alive c n i) := by
    obtain ⟨found, mounted⟩ := alive
    rw [instance?_addInstance] at found
    split at found
    · next new =>
      obtain rfl := Option.some.inj found
      exact .inl ⟨new, rfl, rfl⟩
    · next old => exact .inr ⟨old, vacant n i ⟨found, mounted⟩, found, mounted⟩
  refine ⟨way.wired placed.toWired, ⟨placed.kept, ?_, ?_, ?_⟩,
    placed.subscribed.addInstance id body⟩
  · intro n i alive
    rw [mounted_addInstance]
    rcases alive_or alive with ⟨rfl, element, _⟩ | ⟨_, elsewhere, before⟩
    · rw [if_pos element.symm]
    · rw [if_neg (Ne.symm elsewhere)]
      exact placed.inTable n i before
  · intro n i alive
    rw [updates_addInstance]
    rcases alive_or alive with ⟨rfl, element, listener⟩ | ⟨old, elsewhere, before⟩
    · refine ⟨c.nextListener, listener, ?_⟩
      rw [if_pos ⟨element.symm, rfl⟩, placed.updates_length]
      rfl
    · rw [if_neg (fun h => elsewhere h.1.symm)]
      exact placed.registered n i before
  · intro n i alive l m j hl other hj
    by_contra set
    have alive' : Alive (c.addInstance id body).2 m j := ⟨hj, by simpa using set⟩
    rw [listenersOf_addInstance] at hl
    rcases alive_or alive with ⟨rfl, element, _⟩ | ⟨_, elsewhere, before⟩
    · rw [if_pos element.symm] at hl
      rcases alive_or alive' with ⟨same, _⟩ | ⟨_, elsewhere', before'⟩
      · exact other same
      · rcases List.mem_append.1 hl with hl | hl
        · obtain ⟨j', found, element'⟩ := placed.subscribed _ l m hl
          obtain rfl : j = j' := Option.some.inj (before'.1.symm.trans found)
          exact elsewhere' (element'.trans element)
        · simp [other] at hl
    · rw [if_neg (Ne.symm elsewhere)] at hl
      rcases alive_or alive' with ⟨rfl, _⟩ | ⟨_, _, before'⟩
      · obtain ⟨_, found, _⟩ := placed.subscribed _ l _ hl
        exact absurd (lt_of_instance? found) (lt_irrefl _)
      · have stopped := placed.alone n i before l m j hl other before'.1
        rw [before'.2] at stopped
        cases stopped

theorem updates_congr {c c' : Client P} (h : c'.listeners = c.listeners) (id : String) (n : Nat) :
    updates c' id n = updates c id n := by
  rw [updates, updates, Client.listenersOf, Client.listenersOf, h]

theorem Stride.placed {c c' : Client P} (h : Stride c c') (placed : Placed c) : Placed c' := by
  have way := h.path
  cases h with
  | aside _ same =>
    refine placed.of_fewer way same.abandoned ?_ ?_
    · intro id l n hl
      rwa [Client.listenersOf, same.listeners] at hl
    · rintro n i ⟨found, mounted⟩
      rw [Client.instance?, same.instances] at found
      refine ⟨i, ⟨found, mounted⟩, rfl, rfl, ?_, updates_congr same.listeners _ _⟩
      rw [same.mounted]
  | @touch n f _ keeps =>
    refine placed.of_fewer way rfl (fun _ _ _ h => h) ?_
    rintro m i ⟨found, mounted⟩
    rw [instance?_modify] at found
    split at found
    · obtain ⟨j, before, rfl⟩ := Option.map_eq_some_iff.1 found
      obtain ⟨element, flag, listener⟩ := keeps j
      exact ⟨j, ⟨before, flag ▸ mounted⟩, element, listener, rfl, rfl⟩
    · exact ⟨i, ⟨found, mounted⟩, rfl, rfl, rfl, rfl⟩
  | subscribe id l =>
    refine placed.of_fewer way rfl ?_ ?_
    · intro other l' n hl
      rw [listenersOf_subscribe] at hl
      split at hl
      · rcases List.mem_append.1 hl with hl | hl
        · exact hl
        · simp at hl
      · exact hl
    · intro n i alive
      refine ⟨i, alive, rfl, rfl, rfl, ?_⟩
      rw [updates, listenersOf_subscribe]
      split
      · rw [List.filter_append, updates]
        exact List.append_nil _
      · rfl
  | enter body vacant => exact placed.addInstance body vacant
  | @stop n i found =>
    obtain ⟨listeners, abandoned⟩ := listeners_detach c n i
    refine placed.of_fewer way abandoned ?_ ?_
    · intro id l m hl
      rwa [Client.listenersOf, listeners] at hl
    · intro m j alive
      obtain ⟨other, before⟩ := alive_detach alive
      refine ⟨j, before, rfl, rfl, ?_, updates_congr listeners _ _⟩
      have stored := placed.inTable m j before
      rw [get?_mounted_detach placed.mountedKeys i stored other, stored]
  | @displace id n i stored found =>
    obtain ⟨listeners, abandoned⟩ := listeners_detach (c.takeMounted id).2 n i
    refine placed.of_fewer way abandoned ?_ ?_
    · intro other l m hl
      rwa [Client.listenersOf, listeners] at hl
    · intro m j alive
      obtain ⟨other, before⟩ := alive_detach alive
      refine ⟨j, before, rfl, rfl, ?_, updates_congr listeners _ _⟩
      have inTable := placed.inTable m j before
      rw [get?_mounted_displace placed.mountedKeys i stored inTable other, inTable]
  | @leave n stopped =>
    rcases endSubscription_eq c n with same | ⟨i, l, found, listener, ended⟩
    · rw [same]
      exact placed
    · rw [ended] at way ⊢
      refine placed.of_fewer way rfl ?_ ?_
      · intro id l' m hl
        have hl : (l', .rerender m) ∈ (c.unsubscribe i.element l).2.listenersOf id := hl
        rw [listenersOf_unsubscribe placed.listenerKeys] at hl
        split at hl
        · exact List.mem_of_mem_filter hl
        · exact hl
      · rintro m j ⟨hj, mounted⟩
        rw [instance?_modify] at hj
        split at hj
        · next same =>
          -- the instance whose subscription ends is not alive
          obtain ⟨j', before, rfl⟩ := Option.map_eq_some_iff.1 hj
          rw [← same] at before
          exact absurd ⟨before, mounted⟩ stopped.not_alive
        · next other =>
          have before : Alive c m j := ⟨hj, mounted⟩
          obtain ⟨l', hl', once⟩ := placed.registered m j before
          have ne : l' ≠ l := by
            rintro rfl
            exact other (placed.distinct n m i j l' found hj listener hl')
          exact ⟨j, before, rfl, rfl, rfl,
            updates_unsubscribe placed.listenerKeys i.element j.element once ne⟩
  | @forget id vacant =>
    have listenersOf (other : String) : (c.forget id).2.listenersOf other
        = if id = other then [] else c.listenersOf other := by
      show ((c.listeners.erase id).get? other).getD [] = _
      rw [get?_erase placed.listenerKeys]
      split <;> rfl
    refine placed.of_fewer way rfl ?_ ?_
    · intro other l n hl
      rw [listenersOf] at hl
      split at hl
      · cases hl
      · exact hl
    · intro n i alive
      refine ⟨i, alive, rfl, rfl, rfl, ?_⟩
      rw [updates, listenersOf, if_neg (Ne.symm (vacant n i alive))]
      rfl
  | clear =>
    refine placed.of_fewer way rfl ?_ ?_
    · intro id l n hl
      cases hl
    · intro n i alive
      exact absurd alive (stopped_of_clear placed.inTable)

/-! ### Strides that break it -/

theorem sound_addInstance_iff {c : Client P} (placed : Placed c) (id : String) (body : P.Body) :
    Sound (c.addInstance id body).2 ↔ Vacant c id := by
  constructor
  · rintro sound n i ⟨found, mounted⟩ rfl
    have lt := lt_of_instance? found
    have after : Alive (c.addInstance i.element body).2 n i := by
      refine ⟨?_, mounted⟩
      rw [instance?_addInstance, if_neg lt.ne]
      exact found
    have stored := sound.inTable n i after
    rw [mounted_addInstance, if_pos rfl] at stored
    exact lt.ne (Option.some.inj stored).symm
  · intro vacant
    exact (placed.addInstance body vacant).toSound

theorem sound_forget_iff {c : Client P} (placed : Placed c) (id : String) :
    Sound (c.forget id).2 ↔ Vacant c id := by
  constructor
  · rintro sound n i alive rfl
    obtain ⟨l, listed⟩ := sound.listed (show Alive (c.forget i.element).2 n i from alive)
    have erased : (c.forget i.element).2.listenersOf i.element = [] := by
      show ((c.listeners.erase i.element).get? i.element).getD [] = _
      rw [get?_erase placed.listenerKeys, if_pos rfl]
      rfl
    rw [erased] at listed
    cases listed
  · intro vacant
    exact ((Stride.forget vacant).placed placed).toSound

/-! ### Courses -/

/-- One stride after another. -/
abbrev Course : Client P → Client P → Prop := Relation.ReflTransGen Stride

theorem Course.placed {c c' : Client P} (h : Course c c') (placed : Placed c) : Placed c' := by
  induction h with
  | refl => exact placed
  | tail _ step ih => exact step.placed ih

/-- A stretch of a run that is a course of strides if it begins with tables that
    are placed. -/
structure Strides (c c' : Client P) : Prop where
  path : Path c c'
  course : Placed c → Course c c'

theorem Stride.strides {c c' : Client P} (h : Stride c c') : Strides c c' :=
  ⟨h.path, fun _ => .single h⟩

theorem Strides.of_aside {c c' : Client P} (way : Path c c') (same : Aside c c') : Strides c c' :=
  (Stride.aside way same).strides

theorem strides_composes : Composes (Strides (P := P)) where
  refl c := ⟨.refl c, fun _ => .refl⟩
  trans := by
    intro c c' c'' first second
    refine ⟨first.path.trans second.path, fun placed => ?_⟩
    have before := first.course placed
    exact before.trans (second.course (before.placed placed))

theorem strides_turn {c c' : Client P} (h : Turn c c') : Strides c c' := by
  have way : Path c c' := .change (.refl c) h.change
  rcases h.aside with aside | ⟨n, rfl⟩ | ⟨id, l, rfl⟩
  · exact .of_aside way aside
  · exact (Stride.touch way fun _ => ⟨rfl, rfl, rfl⟩).strides
  · exact (Stride.subscribe c id l).strides

theorem strides_beginRender (c : Client P) (n : Nat) : Strides c (c.beginRender n).2 := by
  have way : Path c (c.beginRender n).2 := .change (.refl c) (.beginRender c n)
  rcases beginRender_eq c n with same | begun
  · rw [same]
    exact strides_composes.refl c
  · rw [begun] at way ⊢
    exact (Stride.touch way fun _ => ⟨rfl, rfl, rfl⟩).strides

theorem strides_endRender (c : Client P) (n : Nat) : Strides c (c.endRender n) :=
  (Stride.touch (.change (.refl c) (.endRender c n)) fun _ => ⟨rfl, rfl, rfl⟩).strides

theorem strides_note (c : Client P) (d : Due P) : Strides c (c.note (.undone d)) :=
  .of_aside (.note (.refl c) _) ⟨rfl, rfl, rfl, le_rfl, rfl⟩

/-! ### Services -/

/-- No instance was made. -/
def MountsNothing (c c' : Client P) : Prop := c'.instances.length = c.instances.length

/-- The requests that leave it to the client to end subscriptions and to forget
    components. -/
def Modest {β : Type} : Request P β → Prop
  | .abandon | .unsubscribe .. | .cleanUp _ => False
  | _ => True

theorem mountsNothing_composes : Composes (MountsNothing (P := P)) where
  refl _ := rfl
  trans first second := second.trans first

section

variable {calls : Calls P μ} (callbacks : calls.Keep MountsNothing Strides)

include callbacks

theorem strides_undo (ds : List (Due P)) : (ds.forM calls.undo).Moves Strides :=
  strides_composes.moves_forM_undo strides_note callbacks.cleanup ds

theorem strides_runPass (id : String) (body : P.Body) :
    (calls.runPass id body).Moves Strides := by
  apply strides_composes.moves_runPass
  · intro c id
    exact .of_aside (.beginPass (.refl c) id) ⟨rfl, rfl, rfl, le_rfl, rfl⟩
  · intro c previous
    exact .of_aside (.endPass (.refl c) previous) ⟨rfl, rfl, rfl, le_rfl, rfl⟩
  · exact callbacks.render

theorem strides_runEffect (e : PendingEffect P) : (calls.runEffect e).Moves Strides := by
  have found (c : Client P) (e : PendingEffect P) : Strides c (c.takeCleanup e).2 := by
    have way := Path.take (.refl c) (.takeCleanup e)
    exact .of_aside way ⟨rfl, rfl, rfl, le_rfl, rfl⟩
  have settled (c : Client P) (e : PendingEffect P) (k : Option P.Cleanup) :
      Strides c (c.settleEffect e k).2 := by
    have way := Path.take (.refl c) (.settleEffect e k)
    refine .of_aside way ?_
    unfold Client.settleEffect
    split <;> exact ⟨rfl, rfl, rfl, le_rfl, rfl⟩
  refine strides_composes.moves_runEffect (fun e => ?_) callbacks.effect (fun e k => ?_) e
  · exact strides_composes.moves_undoAll (fun c => found c e) strides_note callbacks.cleanup
  · exact strides_composes.moves_undoAll (fun c => settled c e k) strides_note callbacks.cleanup

theorem strides_renderInstance (n : Nat) : (calls.renderInstance n).Moves Strides :=
  strides_composes.moves_renderInstance strides_turn strides_beginRender strides_endRender
    (strides_runPass callbacks) (strides_runEffect callbacks) n

theorem strides_cleanUp {id : String} {w w' : World P μ}
    (vacant : Placed w.client → Vacant w.client id)
    (h : calls.cleanUp id w = some ((), w')) : Strides w.client w'.client := by
  have forgotten : Strides w.client (w.client.forget id).2 := by
    have way := Path.take (.refl w.client) (.forget id)
    exact ⟨way, fun placed => .single (.forget (vacant placed))⟩
  exact strides_composes.trans forgotten (strides_undo callbacks _ _ _ _ h)

theorem strides_after_detach {n : Nat} {i : Instance P} {w w' : World P μ}
    (found : w.client.instance? n = some i) (h : calls.tearDown n w = some ((), w')) :
    Strides (w.client.detach n i).2 w'.client := by
  unfold Calls.tearDown at h
  rw [Act.look_bind, found] at h
  obtain ⟨_, w₁, undone, h⟩ := Act.bind_eq_some.1 h
  rw [Act.through_bind] at h
  have during := strides_undo callbacks _ _ _ _ undone
  have stopped := during.path.ages.stopped (detach_stops w.client found)
  have left := (Stride.leave stopped).strides
  refine strides_composes.trans (strides_composes.trans during left) ?_
  split at h
  · next last =>
    refine strides_cleanUp callbacks (fun placed => ?_) h
    -- an instance that is alive on the element would have a listener there
    rintro m j alive element
    obtain ⟨l, listed⟩ := placed.listed alive
    have cleared : (w.client.detach n i).2.instance? n = some { i with mounted := false } := by
      rw [instance?_detach, if_pos rfl, found]
      rfl
    obtain ⟨i', found', same, _⟩ := during.path.ages n _ cleared
    rw [endSubscription_answer found', same] at last
    have empty : (w₁.client.endSubscription n).2.listenersOf i.element = [] := by
      simpa using last
    rw [element, empty] at listed
    cases listed
  · obtain rfl : _ = w' := congrArg Prod.snd (Option.some.inj h)
    exact strides_composes.refl _

theorem strides_tearDown (n : Nat) : (calls.tearDown n).Moves Strides := by
  rintro w ⟨⟩ w' h
  cases found : w.client.instance? n with
  | none =>
    unfold Calls.tearDown at h
    rw [Act.look_bind, found] at h
    obtain rfl : w = w' := congrArg Prod.snd (Option.some.inj h)
    exact strides_composes.refl _
  | some i =>
    have stopped := (Stride.stop found).strides
    exact strides_composes.trans stopped (strides_after_detach callbacks found h)

omit callbacks in
/-- Cleanups that mount nothing leave everybody else to mount nothing. -/
theorem mountsNothing_tearDown (gentle : ∀ k, (calls.cleanup k).Moves MountsNothing) (n : Nat) :
    (calls.tearDown n).Moves MountsNothing := by
  have composes := mountsNothing_composes (P := P)
  refine composes.moves_tearDown ?_ ?_ ?_ n
  · intro n i
    refine composes.moves_undoAll (fun c => ?_) (fun _ _ => rfl) gentle
    rw [MountsNothing, detach_instances, Client.modifyInstance, List.length_modify]
  · intro c n
    rcases endSubscription_eq c n with same | ⟨i, l, _, _, ended⟩
    · rw [same]
      exact composes.refl c
    · rw [ended, MountsNothing, Client.modifyInstance, List.length_modify]
      rfl
  · intro id
    exact composes.moves_undoAll (fun _ => rfl) (fun _ _ => rfl) gentle

theorem strides_unmountElement {id : String} {w w' : World P μ}
    (h : calls.unmountElement id w = some ((), w')) :
    Strides w.client w'.client ∧ (Placed w.client → Vacant w'.client id) := by
  unfold Calls.unmountElement at h
  rw [Act.through_bind] at h
  cases stored : w.client.mounted.get? id with
  | none =>
    have absent : (w.client.takeMounted id).1 = none := stored
    rw [absent] at h
    obtain rfl : _ = w' := congrArg Prod.snd (Option.some.inj h)
    have same : (w.client.takeMounted id).2.mounted = w.client.mounted :=
      congrArg OrderedMap.mk (OrderedMap.get?_eq_none_absent stored).2.2.2
    have way : Path w.client (w.client.takeMounted id).2 :=
      .change (.refl _) (.takeMounted w.client id)
    exact ⟨.of_aside way ⟨rfl, same, rfl, le_rfl, rfl⟩, fun placed => placed.vacant_of_absent stored⟩
  | some n =>
    have present : (w.client.takeMounted id).1 = some n := stored
    rw [present] at h
    have torn : calls.tearDown n { w with client := (w.client.takeMounted id).2 }
        = some ((), w') := h
    have taken : Path w.client (w.client.takeMounted id).2 :=
      .change (.refl _) (.takeMounted w.client id)
    cases found : w.client.instance? n with
    | none =>
      have none_there (placed : Placed w.client) : False := by
        obtain ⟨i, found', _⟩ := placed.stored id n stored
        rw [found] at found'
        cases found'
      have way := (strides_tearDown callbacks n _ _ _ torn).path
      exact ⟨⟨taken.trans way, fun placed => (none_there placed).elim⟩,
        fun placed => (none_there placed).elim⟩
    | some i =>
      have displaced := (Stride.displace stored found).strides
      have rest := strides_after_detach callbacks (w := { w with
        client := (w.client.takeMounted id).2 }) found torn
      refine ⟨strides_composes.trans displaced rest, fun placed => ?_⟩
      have none_new := mountsNothing_tearDown callbacks.cleanups n _ _ _ torn
      rintro m j' alive' rfl
      have length : w'.client.instances.length
          = ((w.client.takeMounted j'.element).2.detach n i).2.instances.length := by
        rw [detach_instances, Client.modifyInstance, List.length_modify]
        exact none_new
      obtain ⟨j, alive, element⟩ := rest.path.ages.alive length alive'
      obtain ⟨other, before⟩ := alive_detach alive
      have inTable := placed.inTable m j before
      rw [element, stored] at inTable
      exact other (Option.some.inj inTable).symm

theorem strides_mount (id : String) (body : P.Body) : (calls.mount id body).Moves Strides := by
  intro w a w' h
  unfold Calls.mount at h
  rw [Act.look_bind] at h
  split at h
  · obtain rfl : w = w' := congrArg Prod.snd (Option.some.inj h)
    exact strides_composes.refl _
  · obtain ⟨_, w₁, vacated, h⟩ := Act.bind_eq_some.1 h
    obtain ⟨vacates, vacant⟩ := strides_unmountElement callbacks vacated
    rw [Act.through_bind] at h
    have enters : Strides w.client (w₁.client.addInstance id body).2 := by
      constructor
      · exact .change vacates.path (.addInstance w₁.client id body)
      · intro placed
        exact (vacates.course placed).tail (.enter body (vacant placed))
    obtain ⟨result, w₂, rendered, h⟩ := Act.bind_eq_some.1 h
    have shown := strides_composes.trans enters
      (strides_renderInstance callbacks _ _ _ _ rendered)
    cases result with
    | ok _ =>
      obtain rfl : w₂ = w' := congrArg Prod.snd (Option.some.inj h)
      exact shown
    | error e =>
      obtain ⟨_, w₃, torn, h⟩ := Act.bind_eq_some.1 h
      obtain rfl : w₃ = w' := congrArg Prod.snd (Option.some.inj h)
      exact strides_composes.trans shown (strides_tearDown callbacks _ _ _ _ torn)

theorem strides_purge (id : String) : (calls.purge id).Moves Strides := by
  have composes := strides_composes (P := P)
  refine .bind composes (.look composes _) fun nested => .forM composes (fun e => ?_) nested
  intro w a w' h
  obtain ⟨_, w₁, vacated, forgotten⟩ := Act.bind_eq_some.1 h
  obtain ⟨vacates, vacant⟩ := strides_unmountElement callbacks vacated
  constructor
  · have way : Path w₁.client w'.client :=
      pathLaw.take calls (.forget e) (fun k _ _ _ hk => (callbacks.cleanup k _ _ _ hk).path)
        _ _ _ forgotten
    exact vacates.path.trans way
  · intro placed
    have forgets := strides_cleanUp callbacks (fun _ => vacant placed) forgotten
    have before := vacates.course placed
    exact before.trans (forgets.course (before.placed placed))

theorem strides_reset : calls.reset.Moves Strides :=
  strides_composes.moves_undoAll (fun c => (Stride.clear c).strides) strides_note
    callbacks.cleanup

end

theorem strides_regime :
    Regime (P := P) (fun r => Modest r) MountsNothing Strides := by
  exact
    { strides_composes with
      turn := strides_turn
      abandon := fun modest => (nomatch modest)
      unsubscribe := fun modest => (nomatch modest)
      cleanUp := fun modest => (nomatch modest)
      runPass := strides_runPass
      runEffect := strides_runEffect
      reset := strides_reset
      renderInstance := strides_renderInstance
      tearDown := strides_tearDown
      mount := strides_mount
      purge := strides_purge }

theorem strides_settle (c : Client P) : Strides c c.settle := by
  constructor
  · exact .settle (.refl c)
  · intro placed
    rw [Client.settle, placed.kept]
    exact .refl

/-- A run from the beginning is a course of strides, as long as its callbacks are
    modest and cleanups mount nothing.  On such a course every instance that is
    alive is the one in the table under its element, its listener is registered
    there exactly once, and no other listener there belongs to an instance that
    is alive.  At any moment, entering an instance on an element and forgetting
    an element keep this if and only if no instance is alive on the element. -/
theorem one_instance_per_element {p : Program P μ} (modest : p.Sends fun r => Modest r)
    (gentle : ∀ nesting k, ((p.invoke nesting).cleanup k).Moves MountsNothing) {depth : Nat}
    {m : Routine P μ α} (hm : m.Sends fun r => Modest r) {document : Document} {memory : μ}
    {a : α} {w : World P μ}
    (h : p.run depth m ⟨Client.new document, memory⟩ = some (a, w)) :
    Course (Client.new document) w.client ∧
      (∀ nesting, (p.invoke nesting).Keep MountsNothing Strides) ∧
      ∀ c : Client P, Course (Client.new document) c →
        Sound c ∧ (∀ id body, Sound (c.addInstance id body).2 ↔ Vacant c id) ∧
          ∀ id, Sound (c.forget id).2 ↔ Vacant c id := by
  refine ⟨?_, strides_regime.moves_invoke modest gentle, fun c way => ?_⟩
  · have strides := strides_regime.run strides_settle modest gentle hm h
    exact strides.course (placed_new document)
  · have placed := way.placed (placed_new document)
    exact ⟨placed.toSound, sound_addInstance_iff placed, sound_forget_iff placed⟩

/-! ### Two instances on one element -/

/-- A body is given by whether it has an effect. -/
abbrev crowded : Callbacks where
  Body := Bool
  Effect := Unit
  Cleanup := Unit
  Listener := Unit
  View := Unit

/-- Components whose effect is undone by nothing, or by mounting another
    component on the same element. -/
def crowdedProgram (again : Bool) : Program crowded Unit where
  render _ lively := do
    if lively then
      let _ ← Routine.request (.useEffect false (some .unit) ())
      return .ok "first"
    else return .ok "another"
  effect _ := return some ()
  cleanup _ := do
    if again then
      let _ ← Routine.request (.mount "a" false)
      return ()
    else return ()
  listener _ := return ()
  view _ _ := return ""

/-- Mounts a component and then another one in its place. -/
def mountTwice : Routine crowded Unit Unit := do
  let _ ← Routine.request (.mount "a" true)
  let _ ← Routine.request (.mount "a" false)
  return ()

theorem crowdedProgram_modest (again : Bool) : (crowdedProgram again).Sends fun r => Modest r := by
  constructor
  · intro id lively
    cases lively with
    | false => trivial
    | true => exact ⟨trivial, fun _ => trivial⟩
  · intro e
    trivial
  · intro k
    cases again with
    | false => trivial
    | true => exact ⟨trivial, fun _ => trivial⟩
  · intro l
    trivial
  · intro v params
    trivial

theorem mountTwice_modest : mountTwice.Sends fun r => Modest r :=
  ⟨trivial, fun _ => ⟨trivial, fun _ => trivial⟩⟩

theorem crowdedProgram_gentle (nesting : Nat) (k : Unit) :
    (((crowdedProgram false).invoke nesting).cleanup k).Moves MountsNothing := by
  cases nesting with
  | zero => exact .of_failure
  | succ nesting => exact .pure mountsNothing_composes ()

/-- The world after both components have been mounted. -/
def crowdedEnd (again : Bool) : World crowded Unit :=
  (((crowdedProgram again).run 5 mountTwice
      ⟨Client.new (Document.ofElements [("a", "")]), ()⟩).getD
    ((), ⟨Client.new (Document.ofElements [("a", "")]), ()⟩)).2

theorem run_crowded (again : Bool) :
    (crowdedProgram again).run 5 mountTwice ⟨Client.new (Document.ofElements [("a", "")]), ()⟩
      = some ((), crowdedEnd again) := by
  have answers : ((crowdedProgram again).run 5 mountTwice
      ⟨Client.new (Document.ofElements [("a", "")]), ()⟩).isSome := by
    cases again <;> decide +kernel
  exact (Option.getD_of_ne_none (Option.isSome_iff_ne_none.1 answers) _).symm

/-- A component replaces another one: the tables stay sound, and the element is
    not vacant for a third one. -/
theorem crowded_replaced :
    (crowdedProgram false).Sends (fun r => Modest r) ∧ mountTwice.Sends (fun r => Modest r) ∧
      (∀ nesting k, (((crowdedProgram false).invoke nesting).cleanup k).Moves MountsNothing) ∧
      Sound (crowdedEnd false).client ∧ (crowdedEnd false).client.mounted.get? "a" = some 1 := by
  have law := one_instance_per_element (crowdedProgram_modest false) crowdedProgram_gentle
    mountTwice_modest (run_crowded false)
  exact ⟨crowdedProgram_modest false, mountTwice_modest, crowdedProgram_gentle,
    (law.2.2 _ law.1).1, by decide +kernel⟩

/-- If a cleanup mounts a component on the element that is about to be taken, two
    instances are alive there. -/
theorem two_instances_on_one_element :
    ¬ ∀ (m : Routine crowded Unit Unit) (w : World crowded Unit),
      (crowdedProgram true).Sends (fun r => Modest r) → m.Sends (fun r => Modest r) →
      (crowdedProgram true).run 5 m ⟨Client.new (Document.ofElements [("a", "")]), ()⟩
        = some ((), w) → Sound w.client := by
  intro claim
  have sound := claim mountTwice _ (crowdedProgram_modest true) mountTwice_modest
    (run_crowded true)
  have alive : ((crowdedEnd true).client.instance? 1).any
      (fun i => i.mounted && i.element == "a") = true := by
    decide +kernel
  cases found : (crowdedEnd true).client.instance? 1 with
  | none =>
    rw [found] at alive
    cases alive
  | some i =>
    rw [found] at alive
    obtain ⟨mounted, element⟩ : i.mounted = true ∧ i.element = "a" := by simpa using alive
    have stored := sound.inTable 1 i ⟨found, mounted⟩
    rw [element] at stored
    have replaced : (crowdedEnd true).client.mounted.get? "a" = some 2 := by decide +kernel
    rw [replaced] at stored
    cases stored

end PageTree.Live
