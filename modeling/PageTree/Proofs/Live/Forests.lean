/-
  PageTree/Proofs/Live/Forests.lean
  =================================
  **The elements of a document are a forest.**

  A document decides whether an element is nested in another one by a loop that
  follows the parents.  The loop has an end as long as no element is around
  itself.  Inserting and removing elements keeps that.  New markup keeps it unless
  it assigns the id of an element around the one it is given to: that element is
  nested anew, in the one that is nested in it.

    * `forest_run_iff`: one step, from a document in which every way ends.
    * `forest_throughout_iff`: any steps, from the empty document.
    * `ring_never_ends`: three steps after which the loop has no end.
-/
import PageTree.Live.Document.Step
import PageTree.Proofs.Live.Roots

namespace PageTree.Live

namespace Document

variable {d : Document}

/-! ### The loop -/

/-- The loop that looks for an element among those around another one ends, with
    this answer: it has come past the outermost element, or it has met the one it
    looks for, or it goes on with the parent. -/
inductive Climbs (d : Document) (outer : String) : Option String → Bool → Prop
  | top : Climbs d outer none false
  | met : Climbs d outer (some outer) true
  | on {p : String} {answer : Bool} (other : p ≠ outer)
      (rest : Climbs d outer (d.parent? p) answer) : Climbs d outer (some p) answer

theorem isNestedIn_of_root {id : String} (root : d.parent? id = none) (outer : String) :
    d.isNestedIn id outer = false := by
  rw [Bool.eq_false_iff, ne_eq, isNestedIn_iff]
  intro within
  obtain ⟨p, link, _⟩ := Relation.TransGen.head'_iff.1 within
  rw [root] at link
  cases link

theorem isNestedIn_of_parent {id p : String} (link : d.parent? id = some p) (outer : String) :
    d.isNestedIn id outer = (p == outer || d.isNestedIn p outer) := by
  rw [Bool.eq_iff_iff, Bool.or_eq_true, beq_iff_eq, isNestedIn_iff, isNestedIn_iff]
  constructor
  · intro within
    obtain ⟨p', link', rest⟩ := Relation.TransGen.head'_iff.1 within
    obtain rfl := Option.some.inj (link.symm.trans link')
    rcases Relation.reflTransGen_iff_eq_or_transGen.1 rest with same | further
    · exact .inl same.symm
    · exact .inr further
  · rintro (rfl | further)
    · exact .single link
    · exact .head link further

theorem Within.ring_parent {x p : String} (ring : d.Within x x) (link : d.parent? x = some p) :
    d.Within p p :=
  Within.ring (.single link) ring

/-- From an element around itself no way leads to one without a parent. -/
theorem Within.parent?_ne_none {x root : String} (ring : d.Within x x) {steps : Nat}
    (way : d.above steps x = some root) : d.parent? root ≠ none := by
  induction steps generalizing x with
  | zero =>
    obtain rfl := Option.some.inj way
    obtain ⟨p, link, _⟩ := Relation.TransGen.head'_iff.1 ring
    rw [link]
    exact Option.some_ne_none p
  | succ steps ih =>
    rw [above] at way
    obtain ⟨p, link, way⟩ := Option.bind_eq_some_iff.1 way
    exact ih (ring.ring_parent link) way

/-- From an element around itself the loop ends only at one it looks for. -/
theorem Within.not_climbs {x outer : String} (ring : d.Within x x) (apart : ¬ d.Within x outer)
    {answer : Bool} : ¬ d.Climbs outer (d.parent? x) answer := by
  intro climb
  generalize start : d.parent? x = p at climb
  induction climb generalizing x with
  | top =>
    obtain ⟨p, link, _⟩ := Relation.TransGen.head'_iff.1 ring
    rw [start] at link
    cases link
  | met => exact apart (.single start)
  | on other rest ih =>
    apply ih (ring.ring_parent start) _ rfl
    intro further
    exact apart (.head start further)

/-! ### Ways outwards in a rooted document -/

/-- Whatever holds of an element once it holds of the one around it. -/
theorem Rooted.outward_induction (rooted : d.Rooted) {motive : String → Prop}
    (step : ∀ x, (∀ p, d.parent? x = some p → motive p) → motive x) (x : String) : motive x := by
  have around : IsStrictOrder String fun p e => d.Within e p :=
    { irrefl := rooted.acyclic
      trans := fun _ _ _ h h' => h'.trans h }
  by_cases present : x ∈ d.elements.keys
  · refine (d.elements.keys.finite_toSet.wellFoundedOn (r := fun p e => d.Within e p)).induction
      present fun y _ ih => step y ?_
    intro p link
    by_cases there : p ∈ d.elements.keys
    · exact ih p there (.single link)
    · refine step p fun q further => ?_
      exact absurd (mem_keys_of_parent? further) there
  · refine step x fun p link => ?_
    exact absurd (mem_keys_of_parent? link) present

/-- The document is a forest, and the loop shows it. -/
structure Forest (d : Document) : Prop where
  /-- From every element one gets outwards to one that has no parent. -/
  root : ∀ id, d.has id = true →
    ∃ steps root, d.above steps id = some root ∧ d.has root = true ∧ d.parent? root = none
  /-- The loop ends for all ids, with the answer the document gives. -/
  climbs : ∀ id outer, d.Climbs outer (d.parent? id) (d.isNestedIn id outer)
  /-- No element is nested in itself. -/
  apart : ∀ id, d.isNestedIn id id = false

theorem Rooted.exists_root (rooted : d.Rooted) (id : String) (present : d.has id = true) :
    ∃ steps root, d.above steps id = some root ∧ d.has root = true ∧ d.parent? root = none := by
  induction id using rooted.outward_induction with
  | step x ih =>
    cases link : d.parent? x with
    | none => exact ⟨0, x, rfl, present, link⟩
    | some p =>
      obtain ⟨steps, root, way, top⟩ := ih p link (rooted.closed x p link)
      refine ⟨steps + 1, root, ?_, top⟩
      rw [above, link]
      exact way

theorem Rooted.climbs (rooted : d.Rooted) (id outer : String) :
    d.Climbs outer (d.parent? id) (d.isNestedIn id outer) := by
  induction id using rooted.outward_induction with
  | step x ih =>
    cases link : d.parent? x with
    | none =>
      rw [isNestedIn_of_root link]
      exact .top
    | some p =>
      rw [isNestedIn_of_parent link]
      by_cases same : p = outer
      · rw [same, beq_self_eq_true, Bool.true_or]
        exact .met
      · rw [beq_false_of_ne same, Bool.false_or]
        exact .on same (ih p link)

theorem Rooted.forest (rooted : d.Rooted) : d.Forest where
  root := rooted.exists_root
  climbs := rooted.climbs
  apart id := by
    rw [Bool.eq_false_iff, ne_eq, isNestedIn_iff]
    exact rooted.acyclic id

/-! ### What one step does to the ways outwards -/

theorem rooted_empty : ({} : Document).Rooted := rooted_ofElements []

theorem Rooted.congr {d' : Document} (rooted : d.Rooted) (same : d'.elements = d.elements) :
    d'.Rooted := by
  have parents (x : String) : d'.parent? x = d.parent? x := by rw [parent?, parent?, same]
  refine ⟨?_, ?_, ?_⟩
  · rw [same]
    exact rooted.keys
  · intro x p link
    rw [parents] at link
    rw [has, same]
    exact rooted.closed x p link
  · intro x loop
    refine rooted.acyclic x (Relation.TransGen.mono ?_ _ _ loop)
    intro e p link
    rwa [← parents]

/-- An element whose parent is removed is removed with it. -/
theorem Rooted.remove (rooted : d.Rooted) (id : String) : (d.remove id).Rooted := by
  obtain ⟨keys, found⟩ := foldl_erase rooted.keys (d.descendants id ++ [id])
  have gone (x : String) : x ∈ d.descendants id ++ [id] ↔ d.Within x id ∨ x = id := by
    simp [mem_descendants]
  have kept {x p : String} (link : (d.remove id).parent? x = some p) :
      ¬ (d.Within x id ∨ x = id) ∧ d.parent? x = some p := by
    rw [parent?, Document.remove, forget, found] at link
    split at link
    · cases link
    · rename_i stays
      exact ⟨(gone x).not.1 stays, link⟩
  refine ⟨keys, ?_, ?_⟩
  · intro x p link'
    obtain ⟨stays, link⟩ := kept link'
    have around : ¬ (d.Within p id ∨ p = id) := by
      rintro (further | rfl)
      · exact stays (.inl (.head link further))
      · exact stays (.inl (.single link))
    have present := rooted.closed x p link
    rw [has_iff] at present ⊢
    rw [Document.remove, forget, found, if_neg ((gone p).not.2 around)]
    exact present
  · intro x loop
    refine rooted.acyclic x (Relation.TransGen.mono ?_ _ _ loop)
    intro e p link
    exact (kept link).2

/-- If markup assigns the id of an element around the one it is given to, the
    latter is around itself afterwards: the first such element on the way outwards
    is nested in it, and up to there the way is what it was. -/
theorem Rooted.ring_write (rooted : d.Rooted) {u : String × String} {x : String}
    (assigned : x ∈ Markup.assignedIds u.2) (around : d.Within u.1 x) :
    (d.write u).Within u.1 u.1 := by
  have present := around.has
  have back {y : String} (h : y ∈ Markup.assignedIds u.2) (other : y ≠ u.1) :
      (d.write u).parent? y = some u.1 :=
    parent?_write_of_assigned rooted.keys present h other
  -- the elements from the one written outwards are not nested in it
  have outwards (y : String) (hy : Relation.ReflTransGen (fun e p => d.parent? e = some p) u.1 y) :
      ¬ d.Within y u.1 := fun below =>
    rooted.acyclic u.1 (Relation.TransGen.trans_right hy below)
  suffices ∀ y, Relation.ReflTransGen (fun e p => d.parent? e = some p) u.1 y →
      d.Within y x → (d.write u).Within y u.1 from this u.1 .refl around
  intro y hy way
  induction way using Relation.TransGen.head_induction_on with
  | @single y link =>
    by_cases here : y ∈ Markup.assignedIds u.2 ∧ y ≠ u.1
    · exact .single (back here.1 here.2)
    · have link' := parent?_write_of_kept rooted.keys (by simpa using here) (outwards y hy)
      have other : x ≠ u.1 := fun same => outwards y hy (same ▸ .single link)
      exact .head (link'.trans link) (.single (back assigned other))
  | @head y p link _ ih =>
    by_cases here : y ∈ Markup.assignedIds u.2 ∧ y ≠ u.1
    · exact .single (back here.1 here.2)
    · have link' := parent?_write_of_kept rooted.keys (by simpa using here) (outwards y hy)
      exact .head (link'.trans link) (ih (hy.tail link))

end Document

namespace DocumentStep

open Document

variable {d : Document}

/-- New markup assigns no id of an element around the one it is given to. -/
def Upright (d : Document) : DocumentStep → Prop
  | .setHtml id markup => ∀ x ∈ Markup.assignedIds markup, d.isNestedIn id x = false
  | _ => True

instance (d : Document) (step : DocumentStep) : Decidable (step.Upright d) := by
  cases step <;> unfold Upright <;> infer_instance

theorem rooted_run (rooted : d.Rooted) {step : DocumentStep} (upright : step.Upright d) :
    (step.run d).2.Rooted := by
  cases step with
  | insert id html => exact rooted.insert id html
  | remove id => exact rooted.remove id
  | setHtml id html =>
    apply rooted.write (u := (id, html))
    rintro y (rfl | above) assigned
    · rfl
    · rw [← isNestedIn_iff, upright y assigned] at above
      cases above
  | _ => exact rooted.congr rfl

/-- A step keeps the document a forest exactly if it gives no element markup with
    the id of an element around it. -/
theorem forest_run_iff (rooted : d.Rooted) (step : DocumentStep) :
    (step.run d).2.Forest ↔ step.Upright d := by
  constructor
  · intro forest
    cases step with
    | setHtml id html =>
      intro x assigned
      by_contra around
      rw [Bool.not_eq_false, isNestedIn_iff] at around
      have ring : (d.setHtml id html).Within id id :=
        rooted.ring_write (u := (id, html)) assigned around
      have apart := forest.apart id
      rw [show (run d (setHtml id html)).2 = d.setHtml id html from rfl, isNestedIn_iff.2 ring]
        at apart
      cases apart
    | _ => trivial
  · intro upright
    exact (rooted_run rooted upright).forest

/-- The document after the steps, taken one after another from the empty one. -/
def after (steps : List DocumentStep) : Document := steps.foldl (fun d step => (step.run d).2) {}

theorem after_concat (done : List DocumentStep) (step : DocumentStep) :
    after (done ++ [step]) = (step.run (after done)).2 := by
  simp [after]

theorem rooted_after (steps : List DocumentStep)
    (upright : ∀ done step, done ++ [step] <+: steps → step.Upright (after done)) :
    (after steps).Rooted := by
  induction steps using List.reverseRecOn with
  | nil => exact rooted_empty
  | append_singleton done step ih =>
    rw [after_concat]
    apply rooted_run
    · apply ih
      intro done' step' before
      exact upright done' step' (before.trans (List.prefix_append _ _))
    · exact upright done step List.prefix_rfl

/-- A document stays a forest, with an end to every way outwards and no element
    nested in itself, exactly as long as no element is given markup that assigns
    the id of an element around it. -/
theorem forest_throughout_iff (steps : List DocumentStep) :
    (∀ done, done <+: steps → (after done).Forest) ↔
      ∀ done step, done ++ [step] <+: steps → step.Upright (after done) := by
  constructor
  · intro forest
    suffices (after steps).Rooted ∧
        ∀ done step, done ++ [step] <+: steps → step.Upright (after done) from this.2
    induction steps using List.reverseRecOn with
    | nil =>
      refine ⟨rooted_empty, fun done step before => ?_⟩
      simp at before
    | append_singleton earlier last ih =>
      obtain ⟨rooted, upright⟩ := ih fun done before =>
        forest done (before.trans (List.prefix_append _ _))
      have here : last.Upright (after earlier) := by
        have whole := forest (earlier ++ [last]) List.prefix_rfl
        rw [after_concat] at whole
        exact (forest_run_iff rooted last).1 whole
      refine ⟨?_, fun done step before => ?_⟩
      · rw [after_concat]
        exact rooted_run rooted here
      · rcases List.prefix_concat_iff.1 before with all | before
        · obtain ⟨rfl, same⟩ := List.append_inj' all rfl
          obtain rfl := List.singleton_inj.1 same
          exact here
        · exact upright done step before
  · intro upright done before
    apply Rooted.forest
    apply rooted_after
    intro done' step' earlier
    exact upright done' step' (earlier.trans before)

/-- An element is given markup with the id of an element that is given markup with
    the id of the first one. -/
def ringed : List DocumentStep :=
  [.insert "a" "", .setHtml "a" "<i id=\"b\"></i>", .setHtml "b" "<i id=\"a\"></i>"]

/-- After these steps the element is nested in itself, no way outwards from it ends,
    and the loop that looks for another element around it has no end. -/
theorem ring_never_ends :
    (after ringed).isNestedIn "a" "a" = true ∧
      (∀ steps root, (after ringed).above steps "a" = some root →
        (after ringed).parent? root ≠ none) ∧
      ∀ answer, ¬ (after ringed).Climbs "c" ((after ringed).parent? "a") answer := by
  have nested : (after ringed).isNestedIn "a" "a" = true := by decide +kernel
  have apart : (after ringed).isNestedIn "a" "c" = false := by decide +kernel
  have ring : (after ringed).Within "a" "a" := isNestedIn_iff.1 nested
  refine ⟨nested, fun steps root => ring.parent?_ne_none, fun answer climb => ?_⟩
  refine ring.not_climbs ?_ climb
  intro within
  rw [isNestedIn_iff.2 within] at apart
  cases apart

end DocumentStep

end PageTree.Live
