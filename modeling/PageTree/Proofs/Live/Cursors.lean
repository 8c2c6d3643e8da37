/-
  PageTree/Proofs/Live/Cursors.lean
  =================================
  **Which component is current.**

  The client keeps one component as the current one: a pass sets it and puts back
  what was there before, a `reset` empties it.  A program that watches itself
  keeps the passes under way in its memory instead, the innermost first, and
  marks that one when it sends a `reset` (`Calls.serveWatched`).  Ambient hooks
  are answered from that list alone, and every run goes the same.  So an ambient
  hook is called for the innermost pass, or for nothing if that pass is marked.

    * `current_follows_passes`: the runs agree, passes put back what they found,
      and outside of all passes hooks are refused.
    * `reset_empties_innermost`: after a `reset` the innermost pass is not current
      any more.
-/
import PageTree.Proofs.Live.Parallels

namespace PageTree.Live

variable {P : Callbacks} {μ α β : Type}

/-! ### Passes under way -/

/-- A pass under way. -/
structure Running where
  component : String
  /-- Whether a `reset` was sent since it began, outside of the passes in it. -/
  emptied : Bool := false

namespace Running

/-- The component of the innermost pass, unless that pass is marked. -/
def innermost : List Running → Option String
  | [] => none
  | r :: _ => if r.emptied then none else some r.component

/-- Marks the innermost pass. -/
def mark : List Running → List Running
  | [] => []
  | r :: rs => { r with emptied := true } :: rs

@[simp] theorem innermost_mark (rs : List Running) : innermost (mark rs) = none := by
  cases rs <;> rfl

@[simp] theorem mark_mark (rs : List Running) : mark (mark rs) = mark rs := by
  cases rs <;> rfl

theorem tail_of_cons {r : Running} {rs under : List Running}
    (h : under = r :: rs ∨ under = mark (r :: rs)) : under.tail = rs := by
  rcases h with rfl | rfl <;> rfl

end Running

open Running (innermost mark)

/-! ### Programs that watch themselves -/

/-- The memory of a program and the passes under way. -/
abbrev Watch (μ : Type) := μ × List Running

/-- The routine of a program that also keeps the passes under way. -/
def Routine.lift : Routine P μ α → Routine P (Watch μ) α
  | .done a => .done a
  | .own f next => .own (fun s => ((f s.1).1, ((f s.1).2, s.2))) fun b => (next b).lift
  | .call r next => .call r fun b => (next b).lift

/-- Puts a pass on the list while its body runs. -/
def Act.watching (id : String) (m : Act P (Watch μ) α) : Act P (Watch μ) α := do
  Act.own fun s => ((), (s.1, ⟨id, false⟩ :: s.2))
  let a ← m
  Act.own fun s => ((), (s.1, s.2.tail))
  return a

/-- Calls a hook for the component that the list gives. -/
def Calls.hookWatched (scope : Option String) (ambient : Bool) (name : String)
    (f : String → Client P → Except Fault α × Client P) : Act P (Watch μ) (Except Fault α) := do
  let current ← Act.own fun s => (innermost s.2, s)
  match if ambient then current else scope.or current with
  | .none => return .error (.hookOutsidePass name)
  | some id => Act.through (f id)

/-- Serves a request without asking the client which component is current. -/
def Calls.serveWatched (calls : Calls P (Watch μ)) (scope : Option String) {β : Type} :
    Request P β → Act P (Watch μ) β
  | .reset => do
    Act.own fun s => ((), (s.1, mark s.2))
    calls.reset
  | .currentComponent => Act.own fun s => (innermost s.2, s)
  | .useState ambient v => hookWatched scope ambient "use_state" fun id c => c.useState id v
  | .useCell ambient v => hookWatched scope ambient "use_ref" fun id c => c.useCell id v
  | .useEffect ambient deps e =>
    hookWatched scope ambient "use_effect" fun id c => (.ok (), c.useEffect id deps e)
  | .useContext ambient id kind =>
    hookWatched scope ambient "use_context" fun _ c => (c.contextValue id kind, c)
  | r => calls.serve scope r

namespace Program

def performWatched (calls : Calls P (Watch μ)) (scope : Option String) (m : Routine P μ α) :
    Act P (Watch μ) α :=
  m.lift.run (calls.serveWatched scope)

/-- The means to run the callbacks of the program that watches itself. -/
def watched (p : Program P μ) : (depth : Nat) → Calls P (Watch μ)
  | 0 => Calls.none
  | depth + 1 =>
    let calls := p.watched depth
    { render := fun id body => Act.watching id (performWatched calls (some id) (p.render id body))
      effect := fun e => performWatched calls none (p.effect e)
      cleanup := fun k => performWatched calls none (p.cleanup k)
      listener := fun l => performWatched calls none (p.listener l)
      view := fun v params => performWatched calls none (p.view v params) }

end Program

/-! ### The client follows the list -/

/-- Beside a world, one in which the program watches itself.  The passes under
    way are those given, and of these the innermost may be marked. -/
structure Follows (passes : List Running) (w : World P μ) (w' : World P (Watch μ)) : Prop where
  client : w'.client = w.client
  memory : w'.memory.1 = w.memory
  passes : w'.memory.2 = passes ∨ w'.memory.2 = mark passes
  current : w.client.current = innermost w'.memory.2

namespace Follows

variable {passes : List Running}

theorem of_mark {w : World P μ} {w' : World P (Watch μ)} (h : Follows (mark passes) w w') :
    Follows passes w w' := by
  refine ⟨h.client, h.memory, .inr ?_, h.current⟩
  rcases h.passes with same | same
  · exact same
  · rw [same, Running.mark_mark]

/-- What leaves the current component alone is followed. -/
theorem respects {f : Client P → α × Client P} (keeps : ∀ c, (f c).2.current = c.current) :
    Respects (Follows (μ := μ) passes) f := by
  intro w w' h
  constructor
  · rw [h.client]
  · refine ⟨?_, h.memory, h.passes, ?_⟩
    · show (f w'.client).2 = (f w.client).2
      rw [h.client]
    · exact (keeps w.client).trans h.current

/-- A pass is followed if its body is, inside one more pass. -/
theorem runPass {calls : Calls P μ} {calls' : Calls P (Watch μ)} {id : String} {body : P.Body}
    {m : Act P (Watch μ) (Except Fault String)}
    (watching : calls'.render id body = Act.watching id m)
    (inside : ∀ under, (calls.render id body).Tracks (Follows (⟨id, false⟩ :: under)) m) :
    (calls.runPass id body).Tracks (Follows passes) (calls'.runPass id body) := by
  intro w w' h
  have begun : Follows (⟨id, false⟩ :: w'.memory.2)
      { w with client := (w.client.beginPass id).2 }
      ⟨(w'.client.beginPass id).2, (w'.memory.1, ⟨id, false⟩ :: w'.memory.2)⟩ := by
    refine ⟨?_, h.memory, .inl rfl, rfl⟩
    show (w'.client.beginPass id).2 = (w.client.beginPass id).2
    rw [h.client]
  have left : calls.runPass id body w
      = (calls.render id body { w with client := (w.client.beginPass id).2 }).bind fun r =>
        some (r.1, { r.2 with client := r.2.client.endPass w.client.current }) := rfl
  have right : calls'.runPass id body w'
      = (m ⟨(w'.client.beginPass id).2, (w'.memory.1, ⟨id, false⟩ :: w'.memory.2)⟩).bind fun r =>
        some (r.1, ⟨r.2.client.endPass w'.client.current,
          (r.2.memory.1, r.2.memory.2.tail)⟩) := by
    unfold Calls.runPass
    rw [Act.through_bind, watching]
    exact Option.bind_assoc (m _) _ _
  rw [left, right]
  refine rel_bind (inside w'.memory.2 _ _ begun) ?_
  rintro ⟨a, w₁⟩ ⟨_, w₁'⟩ ⟨rfl, h₁⟩
  refine .some ⟨rfl, ?_⟩
  have popped : w₁'.memory.2.tail = w'.memory.2 := Running.tail_of_cons h₁.passes
  refine ⟨?_, h₁.memory, ?_, ?_⟩
  · show w₁'.client.endPass w'.client.current = w₁.client.endPass w.client.current
    rw [h₁.client, h.client]
  · show w₁'.memory.2.tail = passes ∨ w₁'.memory.2.tail = mark passes
    rw [popped]
    exact h.passes
  · show w.client.current = innermost w₁'.memory.2.tail
    rw [popped]
    exact h.current

theorem hook (f : String → Client P → Except Fault α × Client P)
    (keeps : ∀ id c, (f id c).2.current = c.current) (scope : Option String) (ambient : Bool)
    (name : String) :
    (Calls.hook scope ambient name f).Tracks (Follows (μ := μ) passes)
      (Calls.hookWatched scope ambient name f) := by
  intro w w' h
  have given : (if ambient then innermost w'.memory.2 else scope.or (innermost w'.memory.2))
      = Calls.hookTarget scope ambient w.client := by
    rw [← h.current, Calls.hookTarget]
  have asked : Calls.hookWatched scope ambient name f w'
      = (match if ambient then innermost w'.memory.2 else scope.or (innermost w'.memory.2) with
        | .none => return .error (.hookOutsidePass name)
        | some id => Act.through (f id) : Act P (Watch μ) (Except Fault α)) w' := rfl
  rw [asked, given]
  cases target : Calls.hookTarget scope ambient w.client with
  | none =>
    rw [hook_of_no_target target]
    exact Act.Tracks.pure _ _ _ h
  | some id =>
    rw [hook_of_target target]
    exact Act.Tracks.through (respects (keeps id)) _ _ h

/-- A routine is followed if every request it may send is. -/
theorem lift {serve : {γ : Type} → Request P γ → Act P μ γ}
    {serve' : {γ : Type} → Request P γ → Act P (Watch μ) γ}
    (served : ∀ {γ : Type} (r : Request P γ), (serve r).Tracks (Follows passes) (serve' r))
    (m : Routine P μ α) : (m.run serve).Tracks (Follows passes) (m.lift.run serve') := by
  induction m with
  | done a => exact .pure a
  | own f next ih =>
    intro w w' h
    have answer : (f w'.memory.1).1 = (f w.memory).1 := by rw [h.memory]
    have worked : Follows passes { w with memory := (f w.memory).2 }
        { w' with memory := ((f w'.memory.1).2, w'.memory.2) } :=
      ⟨h.client, congrArg (fun m => (f m).2) h.memory, h.passes, h.current⟩
    have rest := ih (f w'.memory.1).1 _ _ worked
    show Option.Rel _ ((next (f w.memory).1).run serve _) _
    rw [← answer]
    exact rest
  | call r next ih => exact .bind (served r) ih

section

variable {calls : Calls P μ} {calls' : Calls P (Watch μ)}
  (parallel : ∀ passes, Parallel (Follows passes) calls calls')

include parallel

/-- A `reset` empties the current component, and marks the innermost pass. -/
theorem reset (scope : Option String) :
    calls.reset.Tracks (Follows passes) (calls'.serveWatched scope .reset) := by
  intro w w' h
  have cleared : Follows (mark passes) { w with client := w.client.clear.2 }
      ⟨w'.client.clear.2, (w'.memory.1, mark w'.memory.2)⟩ := by
    refine ⟨?_, h.memory, .inl ?_, ?_⟩
    · show w'.client.clear.2 = w.client.clear.2
      rw [h.client]
    · show mark w'.memory.2 = mark passes
      rcases h.passes with same | same
      · rw [same]
      · rw [same, Running.mark_mark]
    · exact (Running.innermost_mark _).symm
  have undone := (parallel (mark passes)).forM_undo w.client.clear.1 _ _ cleared
  have right : calls'.serveWatched scope .reset w'
      = w'.client.clear.1.forM calls'.undo
        ⟨w'.client.clear.2, (w'.memory.1, mark w'.memory.2)⟩ := rfl
  have due : w'.client.clear.1 = w.client.clear.1 := by rw [h.client]
  rw [Calls.reset, Calls.undoAll_eq, right, due]
  exact rel_mono undone fun r r' both => ⟨both.1, both.2.of_mark⟩

theorem serve (scope : Option String) (r : Request P β) :
    (calls.serve scope r).Tracks (Follows passes) (calls'.serveWatched scope r) := by
  cases r with
  | reset => exact reset parallel scope
  | currentComponent => exact fun w w' h => .some ⟨h.current, h⟩
  | stateOf id => exact fun w w' h => .some ⟨by rw [h.client], h⟩
  | useState ambient v =>
    exact hook _ (fun id c => current_useState c id v) scope ambient "use_state"
  | useCell ambient v => exact hook _ (fun id c => current_useCell c id v) scope ambient "use_ref"
  | useEffect ambient deps e =>
    exact hook _ (fun id c => current_useEffect c id deps e) scope ambient "use_effect"
  | useContext ambient id kind => exact hook _ (fun _ _ => rfl) scope ambient "use_context"
  | _ => exact (parallel passes).serve scope scope trivial

theorem perform (scope : Option String) (m : Routine P μ α) :
    (Program.perform calls scope m).Tracks (Follows passes)
      (Program.performWatched calls' scope m) :=
  lift (fun r => serve parallel scope r) m

end

/-- Callbacks are followed, however deep they are nested. -/
theorem parallel (p : Program P μ) (depth : Nat) (passes : List Running) :
    Parallel (Follows passes) (p.invoke depth) (p.watched depth) := by
  induction depth generalizing passes with
  | zero =>
    exact
      { look _ _ _ h := by rw [h.client]
        access accessed := respects accessed.current
        runPass _ _ _ _ _ := .none
        effect _ := .of_failure
        cleanup _ := .of_failure
        listener _ := .of_failure
        view _ _ := .of_failure }
  | succ depth ih =>
    exact
      { look _ _ _ h := by rw [h.client]
        access accessed := respects accessed.current
        runPass id body := runPass rfl fun under => perform ih (some id) (p.render id body)
        effect e := perform ih none (p.effect e)
        cleanup k := perform ih none (p.cleanup k)
        listener l := perform ih none (p.listener l)
        view v params := perform ih none (p.view v params) }

end Follows

/-! ### Outside of all passes -/

/-- Serves a request sent outside of all callbacks. -/
def Calls.serveOutsideWatched (calls : Calls P (Watch μ)) {β : Type} (r : Request P β) :
    Act P (Watch μ) β := do
  let answer ← calls.serveWatched .none r
  Act.change (·.settle)
  return answer

/-- Carries out a routine of a program that watches itself outside of all
    callbacks. -/
def Program.runWatched (p : Program P μ) (depth : Nat) (m : Routine P μ α)
    (w : World P (Watch μ)) : Option (α × World P (Watch μ)) :=
  m.lift.run (p.watched depth).serveOutsideWatched w

theorem settle_current {c : Client P} (idle : c.current = none) : c.settle.current = none := by
  unfold Client.settle
  split
  · rfl
  · exact idle

/-- Letting the client go a second time changes nothing. -/
theorem settle_settle (c : Client P) : c.settle.settle = c.settle := by
  by_cases given_up : c.abandoned = true
  · have gone : c.settle = c.release := if_pos given_up
    rw [gone]
    exact if_pos given_up
  · have kept : c.settle = c := if_neg given_up
    rw [kept, kept]

/-- After a run the client has been let go, if it was given up. -/
theorem settled_of_run {p : Program P μ} {depth : Nat} {m : Routine P μ α} {w w' : World P μ}
    {a : α} (h : p.run depth m w = some (a, w')) (settled : w.client.settle = w.client) :
    w'.client.settle = w'.client := by
  induction m generalizing w with
  | done b =>
    obtain rfl : w = w' := congrArg Prod.snd (Option.some.inj h)
    exact settled
  | own f next ih => exact ih _ h settled
  | call r next ih =>
    obtain ⟨b, w₁, served, rest⟩ := Act.bind_eq_some.1 h
    obtain ⟨_, w₂, _, ended⟩ := Act.bind_eq_some.1 served
    obtain rfl : _ = w₁ := congrArg Prod.snd (Option.some.inj ended)
    exact ih b rest (settle_settle w₂.client)

/-- Every hook that is called outside of all callbacks is refused, and nothing is
    changed by it. -/
structure RefusesHooks (p : Program P μ) (depth : Nat) (w : World P μ) : Prop where
  useState : ∀ ambient v, p.run depth (Routine.request (.useState ambient v)) w
    = some (.error (.hookOutsidePass "use_state"), w)
  useCell : ∀ ambient v, p.run depth (Routine.request (.useCell ambient v)) w
    = some (.error (.hookOutsidePass "use_ref"), w)
  useEffect : ∀ ambient deps e, p.run depth (Routine.request (.useEffect ambient deps e)) w
    = some (.error (.hookOutsidePass "use_effect"), w)
  useContext : ∀ ambient id kind, p.run depth (Routine.request (.useContext ambient id kind)) w
    = some (.error (.hookOutsidePass "use_context"), w)

theorem refusesHooks_of_idle (p : Program P μ) (depth : Nat) {w : World P μ}
    (idle : w.client.current = none) (settled : w.client.settle = w.client) :
    RefusesHooks p depth w := by
  have refused {γ : Type} (ambient : Bool) (name : String)
      (f : String → Client P → Except Fault γ × Client P) :
      (Calls.hook none ambient name f : Act P μ _) w
        = some (.error (.hookOutsidePass name), w) := by
    have nothing : Calls.hookTarget none ambient w.client = none := by
      cases ambient <;> exact idle
    exact hook_of_no_target nothing name f
  have ended {γ : Type} {r : Request P γ} {a : γ}
      (served : (p.invoke depth).serve none r w = some (a, w)) :
      p.run depth (Routine.request r) w = some (a, w) := by
    have outside : (p.invoke depth).serveOutside r w = some (a, w) := by
      refine Act.bind_eq_some.2 ⟨a, w, served, ?_⟩
      rw [Act.change_bind, settled]
      rfl
    exact Act.bind_eq_some.2 ⟨a, w, outside, rfl⟩
  exact
    { useState ambient v := ended (refused ambient "use_state" _)
      useCell ambient v := ended (refused ambient "use_ref" _)
      useEffect ambient deps e := ended (refused ambient "use_effect" _)
      useContext ambient id kind := ended (refused ambient "use_context" _) }

/-- A run outside of all callbacks goes the same if the program watches itself. -/
theorem Follows.run (p : Program P μ) (depth : Nat) (m : Routine P μ α) :
    Act.Tracks (Follows []) (p.run depth m) (p.runWatched depth m) := by
  refine Follows.lift (fun r => ?_) m
  refine .bind (Follows.serve (Follows.parallel p depth) none r) fun a => ?_
  refine .bind (.change ?_) fun _ => .pure a
  intro w w' h
  have idle : innermost w'.memory.2 = none := by
    rcases h.passes with none | none <;> rw [none] <;> rfl
  refine ⟨rfl, ?_, h.memory, h.passes, ?_⟩
  · exact congrArg Client.settle h.client
  · rw [idle]
    exact settle_current (h.current.trans idle)

/-- **The current component is that of the innermost pass.**  A pass puts back what it
    found.  Whatever callbacks do at whatever depth, things go the same if ambient
    hooks are answered from the list of the passes under way; a `reset` marks the
    innermost one, and while that one is innermost, ambient hooks are refused.
    Outside of all callbacks no component is current and every hook is refused. -/
theorem current_follows_passes (p : Program P μ) :
    (∀ (calls : Calls P μ) (id : String) (body : P.Body) (w w' : World P μ)
        (a : Except Fault String), calls.runPass id body w = some (a, w') →
        w'.client.current = w.client.current) ∧
      (∀ (depth : Nat) (scope : Option String) (passes : List Running) {α : Type}
        (m : Routine P μ α),
        (Program.perform (p.invoke depth) scope m).Tracks (Follows passes)
          (Program.performWatched (p.watched depth) scope m)) ∧
      ∀ (document : Document) (memory : μ) (depth : Nat) {α : Type} (m : Routine P μ α) (a : α)
        (w : World P μ), p.run depth m ⟨Client.new document, memory⟩ = some (a, w) →
        (∃ w', p.runWatched depth m ⟨Client.new document, (memory, [])⟩ = some (a, w') ∧
          Follows [] w w') ∧
        w.client.current = none ∧ ∀ depth', RefusesHooks p depth' w := by
  refine ⟨?_, ?_, ?_⟩
  · intro calls id body w w' a passed
    obtain ⟨w₁, _, rfl⟩ := Calls.runPass_eq_some passed
    rfl
  · intro depth scope passes α m
    exact Follows.perform (Follows.parallel p depth) scope m
  · intro document memory depth α m a w ran
    have start : Follows [] (⟨Client.new document, memory⟩ : World P μ)
        ⟨Client.new document, (memory, [])⟩ := ⟨rfl, rfl, .inl rfl, rfl⟩
    obtain ⟨w', watched, follows⟩ := (Follows.run p depth m).answer start ran
    have idle : w.client.current = none := by
      rw [follows.current]
      rcases follows.passes with none | none <;> rw [none] <;> rfl
    have settled : w.client.settle = w.client := settled_of_run ran rfl
    exact ⟨⟨w', watched, follows⟩, idle, fun depth' => refusesHooks_of_idle p depth' idle settled⟩

/-! ### A pass in a pass -/

/-- A body is given by whether it renders another component. -/
abbrev nested : Callbacks where
  Body := Bool
  Effect := Unit
  Cleanup := Unit
  Listener := Unit
  View := Unit

/-- Keeps in memory which component is current. -/
def noteCurrent : Routine nested (List (Option String)) Unit := do
  let current ← Routine.request .currentComponent
  Routine.change (· ++ [current])

/-- One component renders another one, which sends a `reset`. -/
def nestedProgram : Program nested (List (Option String)) where
  render id outer := do
    noteCurrent
    if outer then
      let _ ← Routine.request (.pass "b" false)
    else
      Routine.request .reset
    noteCurrent
    return .ok id
  effect _ := return none
  cleanup _ := return ()
  listener _ := return ()
  view _ _ := return ""

/-- The world before anything has been rendered. -/
def unrendered : World nested (List (Option String)) :=
  ⟨Client.new (Document.ofElements []), []⟩

/-- The outer component is current before and after the inner one is rendered,
    and during that the inner one is, up to its `reset`. -/
theorem nested_passes_followed :
    ∃ w, nestedProgram.run 3 (Routine.request (.pass "a" true)) unrendered = some (.ok "a", w) ∧
      w.memory = [some "a", some "b", none, some "a"] ∧ w.client.current = none ∧
      RefusesHooks nestedProgram 3 w := by
  have answers : (nestedProgram.run 3 (Routine.request (.pass "a" true)) unrendered).isSome := by
    decide +kernel
  obtain ⟨⟨a, w⟩, ran⟩ := Option.isSome_iff_exists.1 answers
  have noted : (nestedProgram.run 3 (Routine.request (.pass "a" true)) unrendered).map
      (·.2.memory) = some [some "a", some "b", none, some "a"] := by decide +kernel
  have answered : (nestedProgram.run 3 (Routine.request (.pass "a" true)) unrendered).bind
      (·.1.toOption) = some "a" := by decide +kernel
  rw [ran] at noted answered
  obtain rfl : a = .ok "a" := eq_ok_of_toOption answered
  have outside := (current_follows_passes nestedProgram).2.2 _ _ 3 _ _ _ ran
  exact ⟨w, ran, Option.some.inj noted, outside.2.1, outside.2.2 3⟩

theorem reset_empties_innermost :
    ¬ ∀ (m : Routine nested (List (Option String)) Unit)
        (w w' : World nested (List (Option String))),
        Path unrendered.client w.client → w.client.current = some "b" →
        Program.perform (nestedProgram.invoke 2) (some "b") m w = some ((), w') →
        Calls.hookTarget (some "b") true w'.client = some "b" := by
  intro claim
  have begun : Path unrendered.client (unrendered.client.beginPass "b").2 :=
    .beginPass (.refl _) "b"
  have target := claim (Routine.request .reset) ⟨(unrendered.client.beginPass "b").2, []⟩ _ begun
    rfl rfl
  exact absurd target (by decide +kernel)

end PageTree.Live
