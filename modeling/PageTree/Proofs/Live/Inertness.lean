/-
  PageTree/Proofs/Live/Inertness.lean
  ===================================
  **What an instance still does after it was stopped.**

  The flag of an instance is looked at when a render begins, and only then.  From
  the moment it is cleared no render of the instance begins, whatever happens.
  But the callback that clears it may be the body of the instance itself, and
  then a render is under way: when the body answers, the markup is written and
  the effects run as if nothing had happened.

    * `stopped_instance_inert_iff`: a stopped instance begins no render, and a
      render under way drops out exactly if it would write nothing new and has no
      effects to run.
    * `replaced_instance_writes`: a component that mounts another one in its own
      place overwrites it.
-/
import PageTree.Proofs.Live.Instances

namespace PageTree.Live

variable {P : Callbacks} {μ : Type}

/-! ### The rest of a render -/

/-- What a render does after its callback has answered. -/
def Calls.conclude (calls : Calls P μ) (n : Nat) (i : Instance P)
    (result : Except Fault String) : Act P μ (Except Fault Unit) := do
  Act.change (·.endRender n)
  match result with
  | .error e =>
    Act.change (·.discardPending i.element)
    return .error e
  | .ok html =>
    if ← Act.through (·.setHtml i.element html) then
      calls.flush i.element
      return .ok ()
    else
      Act.change (·.discardPending i.element)
      return .error (.noElement i.element)

/-- The world when a render has ended and what its pass queued was dropped. -/
def World.dropped (w : World P μ) (n : Nat) (i : Instance P) : World P μ :=
  { w with client := (w.client.endRender n).discardPending i.element }

/-- The world when a render has ended and its markup was written. -/
def World.written (w : World P μ) (n : Nat) (i : Instance P) (html : String) : World P μ :=
  { w with client := ((w.client.endRender n).setHtml i.element html).2 }

/-- Whatever callbacks there are, the rest of a render writes nothing and runs
    nothing. -/
def DropsOut (n : Nat) (i : Instance P) (result : Except Fault String) (w : World P μ) : Prop :=
  ∃ answer, ∀ calls : Calls P μ, calls.conclude n i result w = some (answer, w.dropped n i)

theorem renderInstance_of_begun {calls : Calls P μ} {n : Nat} {i : Instance P}
    {result : Except Fault String} {w₀ w : World P μ}
    (begun : (w₀.client.beginRender n).1 = some i)
    (answered : calls.runPass i.element i.body
      { w₀ with client := (w₀.client.beginRender n).2 } = some (result, w)) :
    calls.renderInstance n w₀ = calls.conclude n i result w := by
  unfold Calls.renderInstance
  rw [Act.through_bind, begun]
  show ((calls.runPass i.element i.body) _).bind _ = _
  rw [answered]
  rfl

theorem renderInstance_of_not_begun {calls : Calls P μ} {n : Nat} {w : World P μ}
    (idle : w.client.beginRender n = (none, w.client)) :
    calls.renderInstance n w = some (.ok (), w) := by
  unfold Calls.renderInstance
  rw [Act.through_bind, idle]
  rfl

theorem conclude_error (calls : Calls P μ) (n : Nat) (i : Instance P) (e : Fault)
    (w : World P μ) : calls.conclude n i (.error e) w = some (.error e, w.dropped n i) :=
  rfl

theorem conclude_ok (calls : Calls P μ) (n : Nat) (i : Instance P) (html : String)
    (w : World P μ) :
    calls.conclude n i (.ok html) w
      = if w.client.document.has i.element
        then (calls.flush i.element >>= fun _ => pure (.ok ())) (w.written n i html)
        else some (.error (.noElement i.element), w.dropped n i) := by
  unfold Calls.conclude
  rw [Act.change_bind]
  dsimp only
  rw [Act.through_bind]
  have answer : ((w.client.endRender n).setHtml i.element html).1
      = w.client.document.has i.element := rfl
  rw [answer]
  split
  · rfl
  · next absent =>
    have unwritten := Document.setHtml_of_not_has html (by simpa using absent)
    have same : ((w.client.endRender n).setHtml i.element html).2 = w.client.endRender n := by
      show { w.client.endRender n with document := w.client.document.setHtml i.element html } = _
      rw [unwritten]
      rfl
    rw [same]
    rfl

theorem takePending_eq_nil_iff {c : Client P} {id : String} :
    (c.takePending id).1 = [] ↔ ∀ e ∈ c.pending, e.component ≠ id := by
  simp [Client.takePending, List.partition_eq_filter_filter, List.filter_eq_nil_iff]

theorem flush_of_none_waits (calls : Calls P μ) {id : String} {w : World P μ}
    (idle : (w.client.takePending id).1 = []) :
    calls.flush id w = some ((), { w with client := w.client.discardPending id }) := by
  unfold Calls.flush
  rw [Act.through_bind, idle]
  rfl

/-- Where effects give no answer, nothing is run only if no effect waits. -/
theorem none_waits_of_flush {id : String} {w w' : World P μ} {u : Unit}
    (h : Calls.none.flush id w = some (u, w')) : (w.client.takePending id).1 = [] := by
  unfold Calls.flush at h
  rw [Act.through_bind] at h
  cases queued : (w.client.takePending id).1 with
  | nil => rfl
  | cons e es =>
    rw [queued] at h
    obtain ⟨_, w₁, run, _⟩ := Act.bind_eq_some.1 h
    obtain ⟨_, w₂, _, run⟩ := Act.bind_eq_some.1 run
    obtain ⟨_, w₃, answer, _⟩ := Act.bind_eq_some.1 run
    cases answer

/-- The rest of a render drops out if and only if its callback failed, its
    element is gone, or there is nothing new to write and nothing to run. -/
theorem dropsOut_iff {n : Nat} {i : Instance P} {result : Except Fault String} {w : World P μ} :
    DropsOut n i result w ↔ ∀ html, result = .ok html → w.client.document.has i.element = true →
      w.client.document.setHtml i.element html = w.client.document ∧
        ∀ e ∈ w.client.pending, e.component ≠ i.element := by
  constructor
  · rintro ⟨answer, drops⟩ html rfl present
    -- callbacks that never answer leave no room for effects
    have outcome := drops Calls.none
    rw [conclude_ok, if_pos present] at outcome
    obtain ⟨_, w₁, flushed, concluded⟩ := Act.bind_eq_some.1 outcome
    have idle := none_waits_of_flush flushed
    rw [flush_of_none_waits _ idle] at flushed
    obtain rfl : _ = w₁ := congrArg Prod.snd (Option.some.inj flushed)
    have same := congrArg Prod.snd (Option.some.inj concluded)
    constructor
    · exact congrArg (fun w : World P μ => w.client.document) same
    · exact takePending_eq_nil_iff.1 idle
  · intro idle
    cases result with
    | error e => exact ⟨.error e, fun calls => conclude_error calls n i e w⟩
    | ok html =>
      by_cases present : w.client.document.has i.element = true
      · obtain ⟨same, none_waits⟩ := idle html rfl present
        have written : w.written n i html = { w with client := w.client.endRender n } := by
          show World.mk { w.client.endRender n with
            document := w.client.document.setHtml i.element html } w.memory = _
          rw [same]
          rfl
        refine ⟨.ok (), fun calls => ?_⟩
        rw [conclude_ok, if_pos present, written]
        have flushed := flush_of_none_waits calls (w := { w with client := w.client.endRender n })
          (takePending_eq_nil_iff.2 none_waits)
        exact Act.bind_eq_some.2 ⟨(), _, flushed, rfl⟩
      · refine ⟨.error (.noElement i.element), fun calls => ?_⟩
        rw [conclude_ok, if_neg present]

/-! ### After the flag was cleared -/

theorem beginRender_of_stopped {c : Client P} {n : Nat} (stopped : Stopped c n) :
    c.beginRender n = (none, c) := by
  obtain ⟨i, found, cleared⟩ := stopped
  simp [Client.beginRender, found, cleared]

theorem effects_idle_iff {queued : List (PendingEffect P)} {w : World P μ} :
    (∀ calls : Calls P μ, queued.forM calls.runEffect w = some ((), w)) ↔ queued = [] := by
  constructor
  · intro idle
    cases queued with
    | nil => rfl
    | cons e es =>
      obtain ⟨_, w₁, run, _⟩ := Act.bind_eq_some.1 (idle Calls.none)
      obtain ⟨_, w₂, _, run⟩ := Act.bind_eq_some.1 run
      obtain ⟨_, w₃, answer, _⟩ := Act.bind_eq_some.1 run
      cases answer
  · rintro rfl calls
    rfl

/-- After the flag of an instance was cleared, no render of it begins.  What is
    left of a render that was under way drops out if and only if its callback
    fails, its element is gone, or there is nothing new to write and nothing to
    run; else the markup is written and the waiting effects run.  What is left of
    a flush is idle only if no effect is left. -/
theorem stopped_instance_inert_iff {c : Client P} {n : Nat} (stopped : Stopped c n)
    {w : World P μ} (after : Path c w.client) :
    (Stopped w.client n ∧ ∀ calls : Calls P μ, calls.renderInstance n w = some (.ok (), w)) ∧
      (∀ (calls : Calls P μ) (w₀ : World P μ) (i : Instance P) (result : Except Fault String),
        (w₀.client.beginRender n).1 = some i →
        calls.runPass i.element i.body { w₀ with client := (w₀.client.beginRender n).2 }
          = some (result, w) →
        calls.renderInstance n w₀ = calls.conclude n i result w ∧
          (DropsOut n i result w ↔
            ∀ html, result = .ok html → w.client.document.has i.element = true →
              w.client.document.setHtml i.element html = w.client.document ∧
                ∀ e ∈ w.client.pending, e.component ≠ i.element) ∧
          ∀ html, result = .ok html → w.client.document.has i.element = true →
            calls.renderInstance n w₀
              = (calls.flush i.element >>= fun _ => pure (.ok ())) (w.written n i html)) ∧
      ∀ queued : List (PendingEffect P),
        (∀ calls : Calls P μ, queued.forM calls.runEffect w = some ((), w)) ↔ queued = [] := by
  have still := after.ages.stopped stopped
  refine ⟨⟨still, ?_⟩, ?_, fun queued => effects_idle_iff⟩
  · intro calls
    exact renderInstance_of_not_begun (beginRender_of_stopped still)
  · intro calls w₀ i result begun answered
    have rest := renderInstance_of_begun begun answered
    refine ⟨rest, dropsOut_iff, ?_⟩
    rintro html rfl present
    rw [rest, conclude_ok, if_pos present]

/-! ### A replaced instance writes -/

/-- A body is given by whether it belongs to the component that replaces the
    other one. -/
abbrev usurped : Callbacks where
  Body := Bool
  Effect := Unit
  Cleanup := Unit
  Listener := Unit
  View := Unit

/-- A component that, while it is rendered, mounts another one in its place. -/
def usurpedProgram : Program usurped Unit where
  render _ replacing := do
    if replacing then return .ok "new"
    else
      let _ ← Routine.request (.mount "a" true)
      let _ ← Routine.request (.useEffect false none ())
      return .ok "old"
  effect _ := return none
  cleanup _ := return ()
  listener _ := return ()
  view _ _ := return ""

/-- The world when the first component has been entered and is to be rendered. -/
def entered : World usurped Unit :=
  ⟨((Client.new (Document.ofElements [("a", "")])).addInstance "a" false).2, ()⟩

theorem path_entered : Path (Client.new (Document.ofElements [("a", "")])) entered.client := by
  have step := Change.addInstance (P := usurped) (Client.new (Document.ofElements [("a", "")]))
    "a" false
  exact .change (.refl _) step

/-- The first component while it is rendered. -/
def usurpedInstance : Instance usurped :=
  { element := "a", body := false, listener := some 0 }

/-- The answer of the first component and the world after it. -/
def usurpedAnswer : Except Fault String × World usurped Unit :=
  ((usurpedProgram.invoke 4).runPass "a" false
    { entered with client := (entered.client.beginRender 0).2 }).getD (.ok "", entered)

theorem runPass_usurped : (usurpedProgram.invoke 4).runPass "a" false
    { entered with client := (entered.client.beginRender 0).2 } = some usurpedAnswer := by
  have answers : ((usurpedProgram.invoke 4).runPass "a" false
      { entered with client := (entered.client.beginRender 0).2 }).isSome := by
    decide +kernel
  exact (Option.getD_of_ne_none (Option.isSome_iff_ne_none.1 answers) _).symm

theorem usurped_answers : usurpedAnswer.1 = .ok "old" :=
  eq_ok_of_toOption (by decide +kernel)

theorem usurped_stopped : Stopped usurpedAnswer.2.client 0 := by
  have cleared : (usurpedAnswer.2.client.instance? 0).any (!·.mounted) = true := by
    decide +kernel
  cases h : usurpedAnswer.2.client.instance? 0 with
  | none =>
    rw [h] at cleared
    cases cleared
  | some i =>
    rw [h] at cleared
    exact ⟨i, h, by simpa using cleared⟩

/-- The first component was replaced while it was rendered.  It is not rendered
    again, but its render goes on: it writes its markup over that of the mounted
    component and runs its effects. -/
theorem usurped_render_goes_on :
    Stopped usurpedAnswer.2.client 0 ∧ usurpedAnswer.2.client.mounted.get? "a" = some 1 ∧
      usurpedAnswer.2.client.document.html? "a" = some "new" ∧
      (usurpedProgram.invoke 4).renderInstance 0 usurpedAnswer.2 = some (.ok (), usurpedAnswer.2) ∧
      (usurpedProgram.invoke 4).renderInstance 0 entered
        = ((usurpedProgram.invoke 4).flush "a" >>= fun _ => pure (.ok ()))
          (usurpedAnswer.2.written 0 usurpedInstance "old") ∧
      (usurpedAnswer.2.written 0 usurpedInstance "old").client.document.html? "a" = some "old" := by
  have law := stopped_instance_inert_iff usurped_stopped (w := usurpedAnswer.2) (.refl _)
  have under_way := law.2.1 (usurpedProgram.invoke 4) entered usurpedInstance usurpedAnswer.1 rfl
    runPass_usurped
  refine ⟨usurped_stopped, ?_, ?_, law.1.2 _, ?_, ?_⟩
  · decide +kernel
  · decide +kernel
  · exact under_way.2.2 "old" usurped_answers (by decide +kernel)
  · decide +kernel

theorem replaced_instance_writes :
    ¬ ∀ (w₀ w : World usurped Unit) (n : Nat) (i : Instance usurped)
        (result : Except Fault String),
        Path (Client.new (Document.ofElements [("a", "")])) w₀.client →
        (w₀.client.beginRender n).1 = some i →
        (usurpedProgram.invoke 4).runPass i.element i.body
          { w₀ with client := (w₀.client.beginRender n).2 } = some (result, w) →
        Stopped w.client n → DropsOut n i result w := by
  intro claim
  have drops := claim entered usurpedAnswer.2 0 usurpedInstance usurpedAnswer.1
    path_entered rfl runPass_usurped usurped_stopped
  have same := (dropsOut_iff.1 drops "old" usurped_answers (by decide +kernel)).1
  have old : (usurpedAnswer.2.client.document.setHtml "a" "old").html? "a" = some "old" := by
    decide +kernel
  have new : usurpedAnswer.2.client.document.html? "a" = some "new" := by decide +kernel
  have clash : some "old" = some "new" := by
    rw [← old, ← new]
    exact congrArg (·.html? "a") same
  exact absurd clash (by decide)

end PageTree.Live
