/-
  PageTree/Proofs/Live/Drifting.lean
  ==================================
  **Clients that differ in one hook position.**

  Two clients may differ in nothing but the position at which the hooks of one
  component are.  As long as no pass of the component is under way, nobody claims
  a hook there, and the next pass starts over from the first position.  So the
  clients answer alike and still differ in nothing else, whatever else happens,
  and from the next pass of the component on they are equal.

    * `Program.adrift`: callbacks keep such clients side by side.
    * `Elsewhere.tracks`: so does whatever goes on while no pass of the component is
      under way.
-/
import PageTree.Proofs.Live.Parallels
import PageTree.Proofs.Live.Retracing

namespace PageTree.Live

variable {P : Callbacks} {μ α β : Type}

/-- The worlds are equal, or the clients differ in the hook position of a
    component that is not current. -/
inductive Adrift (id : String) : World P μ → World P μ → Prop
  | same (w) : Adrift id w w
  | away {c : Client P} {memory k} (away : c.current ≠ some id) :
      Adrift id ⟨c, memory⟩ ⟨c.seek id k, memory⟩

/-! ### What does not depend on positions -/

theorem modifyRecord_seek_comm (c : Client P) (id other : String) (k : Nat)
    {f : HookRecord P → HookRecord P}
    (keeps : ∀ r, f { r with cursor := k } = { f r with cursor := k }) :
    (c.seek id k).modifyRecord other f = (c.modifyRecord other f).seek id k := by
  suffices same : (c.records.modify id fun r => { r with cursor := k }).modify other f
      = (c.records.modify other f).modify id fun r => { r with cursor := k } from
    congrArg (fun records => { c with records }) same
  by_cases here : id = other
  · subst here
    rw [OrderedMap.modify_modify, OrderedMap.modify_modify]
    congr 1
    exact funext keeps
  · exact OrderedMap.modify_comm (Ne.symm here) _ _ _

theorem size_seek (c : Client P) (id : String) (k : Nat) :
    (c.seek id k).records.size = c.records.size := by
  have keys := OrderedMap.keys_modify c.records id fun r => { r with cursor := k }
  have lengths := congrArg List.length keys
  rw [OrderedMap.keys, OrderedMap.keys, List.length_map, List.length_map] at lengths
  exact lengths

theorem stateSlot?_seek (c : Client P) (id : String) (k : Nat) (s : Setter) :
    (c.seek id k).stateSlot? s = c.stateSlot? s :=
  ((Similar.refl c).seek id k).stateSlot? s

theorem effectSlot?_seek (c : Client P) (id : String) (k : Nat) (e : PendingEffect P) :
    (c.seek id k).effectSlot? e = c.effectSlot? e :=
  ((Similar.refl c).seek id k).found e.component
    (fun r => (r.effects.get? e.index).map fun s => ((⟨r.number, e.index⟩ : SlotName), s))
    fun _ => rfl

theorem cleanups_recordOf_seek (c : Client P) (id other : String) (k : Nat) :
    ((c.seek id k).recordOf other).cleanups = (c.recordOf other).cleanups := by
  rw [Client.recordOf, Client.recordOf, get?_seek]
  split
  · cases c.records.get? other <;> rfl
  · rfl

theorem outstanding_seek (c : Client P) (id : String) (k : Nat) :
    (c.seek id k).outstanding = c.outstanding := by
  unfold Client.outstanding
  show (OrderedMap.update id _ c.records.entries).flatMap _ = _
  generalize c.records.entries = es
  induction es with
  | nil => rfl
  | cons e es ih =>
    obtain ⟨other, r⟩ := e
    simp only [OrderedMap.update]
    split
    · rfl
    · rw [List.flatMap_cons, List.flatMap_cons, ih]

theorem Look.seek {f : Client P → α} (look : Look f) (c : Client P) (id : String) (k : Nat) :
    f (c.seek id k) = f c := by
  cases look with
  | counts => exact congrArg (·, _) (size_seek c id k)
  | read s => simp only [Client.read, stateSlot?_seek]
  | _ => rfl

theorem forget_seek_self (c : Client P) (id : String) (k : Nat) :
    (c.seek id k).forget id = c.forget id := by
  have erased := OrderedMap.erase_modify_self c.records id fun r => { r with cursor := k }
  exact Prod.ext (cleanups_recordOf_seek c id id k)
    (congrArg (fun records => { (c.forget id).2 with records }) erased)

theorem forget_seek_of_ne {id other : String} (ne : id ≠ other) (c : Client P) (k : Nat) :
    (c.seek id k).forget other = ((c.forget other).1, (c.forget other).2.seek id k) := by
  have erased := OrderedMap.erase_modify_of_ne ne c.records fun r => { r with cursor := k }
  exact Prod.ext (cleanups_recordOf_seek c id other k)
    (congrArg (fun records => { (c.forget other).2 with records }) erased)

theorem store_seek (c : Client P) (id : String) (k : Nat) (s : Setter) (v : Value) :
    (c.seek id k).store s v = ((c.store s v).1, (c.store s v).2.seek id k) := by
  simp only [Client.store, stateSlot?_seek]
  split
  · rfl
  · split
    · rfl
    · exact congrArg (some _, ·) (modifyRecord_seek_comm c id s.component k fun _ => rfl)

theorem detach_seek (c : Client P) (id : String) (k n : Nat) (i : Instance P) :
    (c.seek id k).detach n i = ((c.detach n i).1, (c.detach n i).2.seek id k) := by
  -- taking the instance out of the table comes first on both sides
  have table : (c.seek id k).mounted = c.mounted := rfl
  have stopped (c' : Client P) := modifyRecord_seek_comm c' id i.element k
    (f := (·.withoutCleanups)) fun _ => rfl
  unfold Client.detach
  dsimp only [Client.modifyInstance]
  rw [table]
  split
  · exact Prod.ext (cleanups_recordOf_seek c id i.element k)
      (stopped { c.modifyInstance n (fun i => { i with mounted := false }) with
        mounted := c.mounted.erase i.element })
  · exact Prod.ext (cleanups_recordOf_seek c id i.element k)
      (stopped (c.modifyInstance n fun i => { i with mounted := false }))

theorem Access.seek {f : Client P → α × Client P} (access : Access f) (c : Client P)
    (id : String) (k : Nat) :
    (f (c.seek id k)).1 = (f c).1 ∧
      ((f (c.seek id k)).2 = (f c).2 ∨ (f (c.seek id k)).2 = (f c).2.seek id k) := by
  have moved (h : f (c.seek id k) = ((f c).1, (f c).2.seek id k)) :
      (f (c.seek id k)).1 = (f c).1 ∧
        ((f (c.seek id k)).2 = (f c).2 ∨ (f (c.seek id k)).2 = (f c).2.seek id k) := by
    rw [h]
    exact ⟨rfl, .inr rfl⟩
  cases access with
  | takeCleanup e =>
    refine ⟨?_, .inr ?_⟩
    · simp only [Client.takeCleanup, effectSlot?_seek]
    · exact modifyRecord_seek_comm c id e.component k fun _ => rfl
  | settleEffect e cleanup =>
    simp only [Client.settleEffect, effectSlot?_seek]
    split
    · exact ⟨rfl, .inr (modifyRecord_seek_comm (c.note _) id e.component k fun _ => rfl)⟩
    · exact ⟨rfl, .inr rfl⟩
  | forget other =>
    by_cases here : id = other
    · subst here
      have same := forget_seek_self c id k
      exact ⟨congrArg Prod.fst same, .inl (congrArg Prod.snd same)⟩
    · exact moved (forget_seek_of_ne here c k)
  | store s v => exact moved (store_seek c id k s v)
  | listen s l =>
    refine ⟨?_, .inr ?_⟩
    · exact congrArg (Option.map fun _ => c.nextListener) (stateSlot?_seek c id k s)
    · exact modifyRecord_seek_comm { c with nextListener := c.nextListener + 1 } id s.component k
        fun _ => rfl
  | unlisten s n =>
    refine ⟨?_, .inr ?_⟩
    · simp only [Client.unlisten, stateSlot?_seek]
    · exact modifyRecord_seek_comm c id s.component k fun _ => rfl
  | detach n i => exact moved (detach_seek c id k n i)
  | writeCell r v =>
    refine ⟨rfl, .inr ?_⟩
    dsimp only [Client.writeCell]
    split <;> rfl
  | writeContext h v =>
    have same : (c.seek id k).contextValue h.id h.kind = c.contextValue h.id h.kind := rfl
    simp only [Client.writeContext, same]
    split
    · exact ⟨rfl, .inr rfl⟩
    · split <;> exact ⟨rfl, .inr rfl⟩
  | findRoute other path =>
    have same : (c.seek id k).routers = c.routers := rfl
    simp only [Client.findRoute, same]
    split <;> exact ⟨rfl, .inr rfl⟩
  | beginRender n =>
    have same : (c.seek id k).instance? n = c.instance? n := rfl
    simp only [Client.beginRender, same]
    split
    · exact ⟨rfl, .inr rfl⟩
    · next i _ =>
      have reachable : (c.seek id k).isReachable n i = c.isReachable n i := rfl
      rw [reachable]
      split <;> exact ⟨rfl, .inr rfl⟩
  | endSubscription n =>
    have same : (c.seek id k).instance? n = c.instance? n := rfl
    simp only [Client.endSubscription, same]
    split
    · exact ⟨rfl, .inr rfl⟩
    · dsimp only
      split <;> exact ⟨rfl, .inr rfl⟩
  | _ => exact ⟨rfl, .inr rfl⟩

/-! ### Hooks of other components -/

section

variable {c : Client P} {id other : String} (ne : id ≠ other) (k : Nat)

include ne

theorem recordOf_seek_of_ne : (c.seek id k).recordOf other = c.recordOf other := by
  rw [Client.recordOf, get?_seek, if_neg ne]
  rfl

theorem claim_seek_of_ne : (c.seek id k).claim other
    = ((c.claim other).1, (c.claim other).2.seek id k) := by
  have present : (c.seek id k).records.contains other = c.records.contains other := by
    rw [OrderedMap.contains, get?_seek, if_neg ne]
    rfl
  simp only [Client.claim, recordOf_seek_of_ne ne, present]
  refine congrArg (_, ·) ?_
  exact congrArg (fun records => { (c.claim other).2 with records })
    (OrderedMap.insert_modify_of_ne ne c.records _ _)

theorem useState_seek_of_ne (v : Value) : (c.seek id k).useState other v
    = ((c.useState other v).1, (c.useState other v).2.seek id k) := by
  simp only [Client.useState, claim_seek_of_ne ne, recordOf_seek_of_ne ne]
  rw [modifyRecord_seek_comm _ id other k fun _ => rfl]
  split <;> rfl

theorem useEffect_seek_of_ne (deps : Option Deps) (e : P.Effect) :
    (c.seek id k).useEffect other deps e = (c.useEffect other deps e).seek id k := by
  simp only [Client.useEffect, claim_seek_of_ne ne, recordOf_seek_of_ne ne]
  rw [modifyRecord_seek_comm _ id other k fun _ => rfl]
  split <;> rfl

theorem useCell_seek_of_ne (v : Value) : (c.seek id k).useCell other v
    = ((c.useCell other v).1, (c.useCell other v).2.seek id k) := by
  have value (d : Client P) (cell : Nat) : (d.seek id k).cellValue cell = d.cellValue cell := rfl
  simp only [Client.useCell, claim_seek_of_ne ne, recordOf_seek_of_ne ne, value]
  split
  · split <;> rfl
  · rw [modifyRecord_seek_comm _ id other k fun _ => rfl]
    rfl

end

/-! ### Events elsewhere -/

section

variable {id : String}

theorem rel_self (m : Act P μ α) (w : World P μ) :
    Option.Rel (fun r r' => r.1 = r'.1 ∧ Adrift id r.2 r'.2) (m w) (m w) := by
  cases m w with
  | none => exact .none
  | some r => exact .some ⟨rfl, .same _⟩

/-- What goes on in equal clients is the same, so only the others count. -/
theorem tracks_of_seek {m : Act P μ α}
    (h : ∀ (c : Client P) (memory : μ) (k : Nat), c.current ≠ some id →
      Option.Rel (fun r r' => r.1 = r'.1 ∧ Adrift id r.2 r'.2) (m ⟨c, memory⟩)
        (m ⟨c.seek id k, memory⟩)) : m.Tracks (Adrift id) m := by
  intro w w' adrift
  cases adrift with
  | same => exact rel_self m w
  | away away => exact h _ _ _ away

theorem respects_adrift {f : Client P → α × Client P}
    (current : ∀ c, (f c).2.current = c.current)
    (seeks : ∀ c k, c.current ≠ some id → (f (c.seek id k)).1 = (f c).1 ∧
      ((f (c.seek id k)).2 = (f c).2 ∨ (f (c.seek id k)).2 = (f c).2.seek id k)) :
    Respects (Adrift (μ := μ) id) f := by
  intro w w' adrift
  cases adrift with
  | same => exact ⟨rfl, .same _⟩
  | @away c memory k away =>
    obtain ⟨answer, same | sought⟩ := seeks c k away
    · refine ⟨answer.symm, ?_⟩
      rw [same]
      exact .same _
    · refine ⟨answer.symm, ?_⟩
      rw [sought]
      exact .away (by rwa [current])

/-- A pass starts over from the first position. -/
theorem runPass_seek (calls : Calls P μ) (body : P.Body) (c : Client P) (id : String) (k : Nat)
    (memory : μ) :
    calls.runPass id body ⟨c.seek id k, memory⟩ = calls.runPass id body ⟨c, memory⟩ := by
  have begun : (c.seek id k).beginPass id = c.beginPass id := by
    have rewound := OrderedMap.modify_modify c.records id
      (fun r : HookRecord P => { r with cursor := k }) fun r => { r with cursor := 0 }
    exact congrArg (fun records => (c.current, { c with current := some id, records })) rewound
  unfold Calls.runPass
  rw [Act.through_bind, Act.through_bind, begun]

theorem runPass_adrift {calls : Calls P μ}
    (renders : ∀ other body, id ≠ other →
      (calls.render other body).Tracks (Adrift id) (calls.render other body))
    (other : String) (body : P.Body) :
    (calls.runPass other body).Tracks (Adrift id) (calls.runPass other body) := by
  refine tracks_of_seek fun c memory k away => ?_
  by_cases here : id = other
  · subst here
    rw [runPass_seek]
    exact rel_self _ _
  · have begun : ((c.seek id k).beginPass other).2 = (c.beginPass other).2.seek id k :=
      congrArg (fun records => { (c.beginPass other).2 with records })
        (OrderedMap.modify_comm (Ne.symm here) c.records _ _)
    have entered : Adrift id ⟨(c.beginPass other).2, memory⟩
        ⟨((c.seek id k).beginPass other).2, memory⟩ := by
      rw [begun]
      exact .away fun same => here (Option.some.inj same).symm
    refine rel_bind (renders other body here _ _ entered) ?_
    rintro ⟨a, w₁⟩ ⟨_, w₁'⟩ ⟨rfl, adrift⟩
    cases adrift with
    | same => exact .some ⟨rfl, .same _⟩
    | away => exact .some ⟨rfl, .away away⟩

/-- Who does not call hooks for the component gets the same from its hooks. -/
theorem hook_adrift {f : String → Client P → Except Fault α × Client P}
    (current : ∀ other c, (f other c).2.current = c.current)
    (seeks : ∀ other c k, id ≠ other →
      f other (c.seek id k) = ((f other c).1, (f other c).2.seek id k))
    {scope : Option String} (elsewhere : scope ≠ some id) (ambient : Bool) (name : String) :
    (Calls.hook scope ambient name f : Act P μ (Except Fault α)).Tracks (Adrift id)
      (Calls.hook scope ambient name f) := by
  refine tracks_of_seek fun c memory k away => ?_
  cases target : Calls.hookTarget scope ambient c with
  | none =>
    have same : Calls.hookTarget scope ambient (c.seek id k) = none := target
    rw [hook_of_no_target target, hook_of_no_target same]
    exact .some ⟨rfl, .away away⟩
  | some other =>
    have same : Calls.hookTarget scope ambient (c.seek id k) = some other := target
    have ne : id ≠ other := by
      rintro rfl
      cases ambient with
      | true => exact away target
      | false =>
        cases scope with
        | none => exact away target
        | some _ => exact elsewhere target
    rw [hook_of_target target, hook_of_target same, seeks other c k ne]
    exact .some ⟨rfl, .away ((current other c).trans_ne away)⟩

theorem clear_seek (c : Client P) (id : String) (k : Nat) : (c.seek id k).clear = c.clear := by
  have due := outstanding_seek c id k
  exact congrArg (·, c.clear.2) due

/-- The request does not ask for the hook position of the component. -/
def Request.Avoids (id : String) : Request P β → Prop
  | .stateOf other => id ≠ other
  | _ => True

theorem serve_adrift {calls : Calls P μ}
    (parallel : Parallel (Adrift id) calls calls) {scope : Option String}
    (elsewhere : scope ≠ some id) {r : Request P β} (avoids : r.Avoids id) :
    (calls.serve scope r).Tracks (Adrift id) (calls.serve scope r) := by
  cases r with
  | reset =>
    refine tracks_of_seek fun c memory k away => ?_
    have same : calls.reset ⟨c.seek id k, memory⟩ = calls.reset ⟨c, memory⟩ := by
      rw [Calls.reset, Calls.undoAll_eq, Calls.undoAll_eq, clear_seek]
    show Option.Rel _ (calls.reset _) (calls.reset _)
    rw [same]
    exact rel_self _ _
  | currentComponent =>
    exact tracks_of_seek fun c memory k away => .some ⟨rfl, .away away⟩
  | stateOf other =>
    refine tracks_of_seek fun c memory k away => .some ⟨?_, .away away⟩
    have record : (c.seek id k).recordOf other = c.recordOf other := recordOf_seek_of_ne avoids k
    simp only [Client.stateOf, record]
    rfl
  | useState ambient v =>
    exact hook_adrift (fun other c => current_useState c other v)
      (fun other c k ne => useState_seek_of_ne ne k v) elsewhere ambient _
  | useCell ambient v =>
    exact hook_adrift (fun other c => current_useCell c other v)
      (fun other c k ne => useCell_seek_of_ne ne k v) elsewhere ambient _
  | useEffect ambient deps e =>
    refine hook_adrift (f := fun other c => (.ok (), c.useEffect other deps e)) ?_ ?_ elsewhere
      ambient _
    · exact fun other c => current_useEffect c other deps e
    · exact fun other c k ne => congrArg (Except.ok (), ·) (useEffect_seek_of_ne ne k deps e)
  | useContext ambient other kind =>
    exact hook_adrift (fun _ _ => rfl) (fun _ _ _ _ => rfl) elsewhere ambient _
  | _ => exact parallel.serve scope scope trivial

theorem Routine.adrift {serve : {γ : Type} → Request P γ → Act P μ γ}
    (served : ∀ {γ : Type} {r : Request P γ}, r.Avoids id →
      (serve r).Tracks (Adrift id) (serve r)) {m : Routine P μ α}
    (avoids : m.Sends (Request.Avoids id)) :
    (m.run serve).Tracks (Adrift id) (m.run serve) := by
  induction m with
  | done a => exact .pure a
  | own f next ih =>
    have worked : (Act.own f : Act P μ _).Tracks (Adrift id) (Act.own f) := by
      exact tracks_of_seek fun c memory k away => .some ⟨rfl, .away away⟩
    exact .bind worked fun b => ih b (avoids b)
  | call r next ih => exact .bind (served avoids.1) fun b => ih b (avoids.2 b)

/-- Callbacks keep clients side by side that differ in the position of a
    component, however deep they are nested. -/
theorem Program.adrift {p : Program P μ} (avoids : p.Sends (Request.Avoids id)) (depth : Nat) :
    Parallel (Adrift id) (p.invoke depth) (p.invoke depth) := by
  have look {γ : Type} {f : Client P → γ} (seen : Look f) : Sees (Adrift (μ := μ) id) f := by
    intro w w' adrift
    cases adrift with
    | same => rfl
    | @away c memory k => exact (seen.seek c id k).symm
  have access {γ : Type} {f : Client P → γ × Client P} (accessed : Access f) :
      Respects (Adrift (μ := μ) id) f :=
    respects_adrift accessed.current fun c k _ => accessed.seek c id k
  induction depth with
  | zero =>
    exact
      { look, access
        runPass other body := runPass_adrift (fun _ _ _ => .of_failure) other body
        effect _ := .of_failure
        cleanup _ := .of_failure
        listener _ := .of_failure
        view _ _ := .of_failure }
  | succ depth ih =>
    have perform {γ : Type} (scope : Option String) (elsewhere : scope ≠ some id)
        {m : Routine P μ γ} (hm : m.Sends (Request.Avoids id)) :
        (Program.perform (p.invoke depth) scope m).Tracks (Adrift id)
          (Program.perform (p.invoke depth) scope m) :=
      Routine.adrift (fun avoids => serve_adrift ih elsewhere avoids) hm
    exact
      { look, access
        runPass := runPass_adrift fun other body ne =>
          perform (some other) (fun same => ne (Option.some.inj same).symm)
            (avoids.render other body)
        effect e := perform none nofun (avoids.effect e)
        cleanup k := perform none nofun (avoids.cleanup k)
        listener l := perform none nofun (avoids.listener l)
        view v params := perform none nofun (avoids.view v params) }

/-- Letting the client go, which is done between requests, keeps them side by side. -/
theorem settle_adrift : (Act.change (·.settle) : Act P μ Unit).Tracks (Adrift id)
    (Act.change (·.settle)) := by
  refine tracks_of_seek fun c memory k away => ?_
  have left (d : Client P) : (Act.change (·.settle) : Act P μ Unit) ⟨d, memory⟩
      = some ((), ⟨d.settle, memory⟩) := rfl
  rw [left, left]
  by_cases given_up : c.abandoned = true
  · have gone : (c.seek id k).settle = c.settle := by
      have released : c.settle = c.release := if_pos given_up
      have released' : (c.seek id k).settle = (c.seek id k).release := if_pos given_up
      rw [released, released']
      rfl
    rw [gone]
    exact .some ⟨rfl, .same _⟩
  · have kept : c.settle = c := if_neg given_up
    have kept' : (c.seek id k).settle = c.seek id k := if_neg given_up
    rw [kept, kept']
    exact .some ⟨rfl, .away away⟩

theorem pass_seek (calls : Calls P μ) (body : P.Body) (c : Client P) (id : String) (k : Nat)
    (memory : μ) :
    calls.pass id body ⟨c.seek id k, memory⟩ = calls.pass id body ⟨c, memory⟩ := by
  show ((calls.runPass id body) ⟨c.seek id k, memory⟩).bind _ = _
  rw [runPass_seek]
  rfl

/-- The next pass of the component is the same. -/
theorem Adrift.pass_eq {w w' : World P μ} (adrift : Adrift id w w') (calls : Calls P μ)
    (body : P.Body) : calls.pass id body w' = calls.pass id body w := by
  cases adrift with
  | same => rfl
  | away => exact pass_seek calls body _ id _ _

end

/-! ### While no pass of the component is under way -/

/-- What may go on while no pass of a component is under way.  Memory and client are
    worked on; requests are served for callbacks outside of its body, and callbacks
    run; waiting effects run, changes are reacted to, and passes are made, also of the
    component itself; the passes of others that were under way before go on and end.
    Nobody asks for its hook position. -/
inductive Elsewhere (p : Program P μ) (id : String) : {α : Type} → Act P μ α → Prop
  | pure {α : Type} (a : α) : Elsewhere p id (Pure.pure a)
  | bind {α β : Type} {m : Act P μ α} {next : α → Act P μ β} (first : Elsewhere p id m)
      (rest : ∀ a, Elsewhere p id (next a)) : Elsewhere p id (m >>= next)
  | own {α : Type} (f : μ → α × μ) : Elsewhere p id (Act.own f)
  | look {α : Type} {f : Client P → α} (seen : Look f) : Elsewhere p id (Act.look f)
  | through {α : Type} {f : Client P → α × Client P} (access : Access f) :
      Elsewhere p id (Act.through f)
  | serve {α : Type} (depth : Nat) {scope : Option String} (outside : scope ≠ some id)
      {r : Request P α} (avoids : r.Avoids id) : Elsewhere p id ((p.invoke depth).serve scope r)
  | effect (depth : Nat) (e : P.Effect) : Elsewhere p id ((p.invoke depth).effect e)
  | cleanup (depth : Nat) (k : P.Cleanup) : Elsewhere p id ((p.invoke depth).cleanup k)
  | listener (depth : Nat) (l : P.Listener) : Elsewhere p id ((p.invoke depth).listener l)
  | view (depth : Nat) (v : P.View) (params : RouteParams) :
      Elsewhere p id ((p.invoke depth).view v params)
  | runEffect (depth : Nat) (e : PendingEffect P) : Elsewhere p id ((p.invoke depth).runEffect e)
  | react (depth : Nat) (r : Reaction P) : Elsewhere p id ((p.invoke depth).react r)
  | runPass (depth : Nat) (other : String) (body : P.Body) :
      Elsewhere p id ((p.invoke depth).runPass other body)
  | endPass {previous : Option String} (outside : previous ≠ some id) :
      Elsewhere p id (Act.change (·.endPass previous))
  | settle : Elsewhere p id (Act.change (·.settle))

namespace Elsewhere

variable {p : Program P μ} {id : String}

/-- So may a routine, if its requests are served so. -/
theorem routine {serve : {γ : Type} → Request P γ → Act P μ γ}
    (served : ∀ {γ : Type} {r : Request P γ}, r.Avoids id → Elsewhere p id (serve r))
    {m : Routine P μ α} (avoids : m.Sends (Request.Avoids id)) :
    Elsewhere p id (m.run serve) := by
  induction m with
  | done a => exact .pure a
  | own f next ih => exact .bind (.own f) fun b => ih b (avoids b)
  | call r next ih => exact .bind (served avoids.1) fun b => ih b (avoids.2 b)

/-- A run outside of all callbacks. -/
theorem run (depth : Nat) {m : Routine P μ α} (avoids : m.Sends (Request.Avoids id)) :
    Elsewhere p id (p.run depth m) := by
  have outside : none ≠ some id := nofun
  refine routine (fun avoided => ?_) avoids
  exact .bind (.serve depth outside avoided) fun a => .bind .settle fun _ => .pure a

/-- What goes on elsewhere goes on side by side. -/
theorem tracks (avoids : p.Sends (Request.Avoids id)) {m : Act P μ α} (h : Elsewhere p id m) :
    m.Tracks (Adrift id) m := by
  have parallel (depth : Nat) := Program.adrift avoids depth
  induction h with
  | pure a => exact .pure a
  | bind _ _ first rest => exact .bind first rest
  | own f => exact tracks_of_seek fun c memory k away => .some ⟨rfl, .away away⟩
  | look seen => exact (parallel 0).looks seen
  | through access => exact (parallel 0).through access
  | serve depth outside avoided => exact serve_adrift (parallel depth) outside avoided
  | effect depth e => exact (parallel depth).effect e
  | cleanup depth k => exact (parallel depth).cleanup k
  | listener depth l => exact (parallel depth).listener l
  | view depth v params => exact (parallel depth).view v params
  | runEffect depth e => exact (parallel depth).runEffect e
  | react depth r => exact (parallel depth).react r
  | runPass depth other body => exact (parallel depth).runPass other body
  | endPass outside => exact tracks_of_seek fun c memory k _ => .some ⟨rfl, .away outside⟩
  | settle => exact settle_adrift

end Elsewhere

end PageTree.Live
