/-
  PageTree/Proofs/Live/Silence.lean
  =================================
  **Callbacks that ask for nothing.**

  A callback may do all its work on the memory of its program and send no request.
  It always gives an answer, and the client stays as it is.  If the views and the
  cleanups of a program are like that, a purge comes to an end: it stops
  components, and it leaves the document and the routers alone.

    * `Program.Silent.invoke`: the callbacks of such a program are quiet;
    * `Calls.Quiet.purge`: a purge with quiet callbacks.
-/
import PageTree.Proofs.Live.Instances

namespace PageTree.Live

variable {P : Callbacks} {μ α β : Type}

/-! ### Courses of events that answer -/

/-- The course of events gives an answer, wherever it begins. -/
def Act.Answers (m : Act P μ α) : Prop := ∀ w, ∃ a w', m w = some (a, w')

namespace Act.Answers

theorem pure (a : α) : (Pure.pure a : Act P μ α).Answers := fun w => ⟨a, w, rfl⟩

theorem bind {m : Act P μ α} {k : α → Act P μ β} (hm : m.Answers) (hk : ∀ a, (k a).Answers) :
    (m >>= k).Answers := by
  intro w
  obtain ⟨a, w₁, answered⟩ := hm w
  obtain ⟨b, w₂, further⟩ := hk a w₁
  exact ⟨b, w₂, Act.bind_eq_some.2 ⟨a, w₁, answered, further⟩⟩

theorem look (f : Client P → α) : (Act.look f : Act P μ α).Answers := fun _ => ⟨_, _, rfl⟩

theorem change (f : Client P → Client P) : (Act.change f : Act P μ Unit).Answers :=
  fun _ => ⟨_, _, rfl⟩

theorem through (f : Client P → α × Client P) : (Act.through f : Act P μ α).Answers :=
  fun _ => ⟨_, _, rfl⟩

theorem forM {k : α → Act P μ PUnit} (hk : ∀ a, (k a).Answers) (as : List α) :
    (as.forM k).Answers := by
  induction as with
  | nil => exact pure _
  | cons a as ih => exact bind (hk a) fun _ => ih

end Act.Answers

/-! ### Silent callbacks -/

/-- The routine sends no request. -/
def Routine.Silent (m : Routine P μ α) : Prop := m.Sends fun _ => False

theorem Routine.Silent.run {m : Routine P μ α} (silent : m.Silent)
    (serve : {γ : Type} → Request P γ → Act P μ γ) (w : World P μ) :
    ∃ a memory, m.run serve w = some (a, { w with memory }) := by
  induction m generalizing w with
  | done a => exact ⟨a, w.memory, rfl⟩
  | own f next ih =>
    obtain ⟨a, memory, answered⟩ := ih _ (silent _) { w with memory := (f w.memory).2 }
    exact ⟨a, memory, answered⟩
  | call r next => exact silent.1.elim

/-- The views and the cleanups send no requests. -/
structure Program.Silent (p : Program P μ) : Prop where
  view : ∀ v params, (p.view v params).Silent
  cleanup : ∀ k, (p.cleanup k).Silent

/-- Views and cleanups always answer and leave the client as it is. -/
structure Calls.Quiet (calls : Calls P μ) : Prop where
  view : ∀ v params w, ∃ html memory, calls.view v params w = some (html, { w with memory })
  cleanup : ∀ k w, ∃ memory, calls.cleanup k w = some ((), { w with memory })

theorem Program.Silent.invoke {p : Program P μ} (silent : p.Silent) (depth : Nat) :
    (p.invoke (depth + 1)).Quiet where
  view v params w := (silent.view v params).run _ w
  cleanup k w := by
    obtain ⟨_, memory, answered⟩ :=
      (silent.cleanup k).run ((p.invoke depth).serve none) w
    exact ⟨memory, answered⟩

/-! ### What a purge leaves alone -/

/-- Components may be gone.  The document and the routers are the same. -/
structure Sheds (c c' : Client P) : Prop where
  document : c'.document = c.document
  routers : c'.routers = c.routers
  abandoned : c'.abandoned = c.abandoned

theorem Sheds.refl (c : Client P) : Sheds c c := ⟨rfl, rfl, rfl⟩

theorem sheds_composes : Composes (Sheds (P := P)) where
  refl := Sheds.refl
  trans first second :=
    ⟨second.document.trans first.document, second.routers.trans first.routers,
      second.abandoned.trans first.abandoned⟩

theorem sheds_detach (c : Client P) (n : Nat) (i : Instance P) : Sheds c (c.detach n i).2 := by
  unfold Client.detach
  dsimp only
  split <;> exact ⟨rfl, rfl, rfl⟩

theorem sheds_endSubscription (c : Client P) (n : Nat) : Sheds c (c.endSubscription n).2 := by
  rcases endSubscription_eq c n with same | ⟨i, l, _, _, ended⟩
  · rw [same]
    exact .refl c
  · rw [ended]
    exact ⟨rfl, rfl, rfl⟩

namespace Calls.Quiet

variable {calls : Calls P μ} (quiet : calls.Quiet)

include quiet

theorem sheds_cleanup (k : P.Cleanup) : (calls.cleanup k).Moves Sheds := by
  intro w a w' h
  obtain ⟨memory, answered⟩ := quiet.cleanup k w
  obtain ⟨_, rfl⟩ := Prod.mk.inj (Option.some.inj (answered.symm.trans h))
  exact .refl _

theorem sheds_undoAll {take : Client P → List (Due P) × Client P}
    (taken : ∀ c, Sheds c (take c).2) : (calls.undoAll take).Moves Sheds :=
  sheds_composes.moves_undoAll taken (fun _ _ => ⟨rfl, rfl, rfl⟩) quiet.sheds_cleanup

theorem answers_undoAll (take : Client P → List (Due P) × Client P) :
    (calls.undoAll take).Answers := by
  refine .bind (.through take) fun ds => .forM (fun d => ?_) ds
  refine .bind (.change _) fun _ w => ?_
  obtain ⟨memory, answered⟩ := quiet.cleanup d.cleanup w
  exact ⟨(), _, answered⟩

theorem sheds_cleanUp (id : String) : (calls.cleanUp id).Moves Sheds :=
  quiet.sheds_undoAll fun _ => ⟨rfl, rfl, rfl⟩

theorem sheds_unmountElement (id : String) : (calls.unmountElement id).Moves Sheds := by
  refine sheds_composes.moves_unmountElement (fun _ _ => ⟨rfl, rfl, rfl⟩) (fun n => ?_) id
  exact sheds_composes.moves_tearDown (fun n i => quiet.sheds_undoAll fun c => sheds_detach c n i)
    sheds_endSubscription quiet.sheds_cleanUp n

theorem answers_tearDown (n : Nat) : (calls.tearDown n).Answers := by
  refine .bind (.look _) fun found => ?_
  cases found with
  | none => exact .pure _
  | some i =>
    refine .bind (quiet.answers_undoAll _) fun _ => .bind (.through _) fun last => ?_
    cases last with
    | true => exact quiet.answers_undoAll _
    | false => exact .pure _

theorem answers_unmountElement (id : String) : (calls.unmountElement id).Answers := by
  refine .bind (.through _) fun found => ?_
  cases found with
  | none => exact .pure _
  | some n => exact quiet.answers_tearDown n

/-- A purge ends, and the document and the routers are the same after it. -/
theorem purge (id : String) (w : World P μ) :
    ∃ w', calls.purge id w = some ((), w') ∧ Sheds w.client w'.client := by
  have sheds : (calls.purge id).Moves Sheds :=
    sheds_composes.moves_purge quiet.sheds_unmountElement quiet.sheds_cleanUp id
  have answers : (calls.purge id).Answers := by
    refine .bind (.look _) fun nested => .forM (fun e => ?_) nested
    exact .bind (quiet.answers_unmountElement e) fun _ => quiet.answers_undoAll _
  obtain ⟨_, w', purged⟩ := answers w
  exact ⟨w', purged, sheds w () w' purged⟩

end Calls.Quiet

end PageTree.Live
