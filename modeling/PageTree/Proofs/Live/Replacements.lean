/-
  PageTree/Proofs/Live/Replacements.lean
  ======================================
  **New markup in place of what was nested.**

  Giving an element new markup forgets the elements nested in it and nests an
  empty element in it for every id the markup assigns.  As long as these are ids of
  elements that were nested in it, or of none at all, nothing else is touched: what
  is nested in the element afterwards is what the markup assigns, and nothing is
  nested any deeper.

    * `Rooted.within_write_iff`: what is nested in the element afterwards;
    * `pairwise_descendants`: a document lists nested elements without repetition,
      in ascending order;
    * `content_replaced`: what the new markup does to every element.
-/
import PageTree.Proofs.Live.Roots

namespace PageTree.Live

namespace Document

variable {d : Document} {u : String × String}

/-! ### Elements in ascending order -/

theorem pairwise_sortIds {ids : List String} (nodup : ids.Nodup) :
    (sortIds ids).Pairwise (· < ·) := by
  have ascending : (sortIds ids).Pairwise fun a b => (!decide (b < a)) = true := by
    apply List.pairwise_mergeSort
    · intro a b c ab bc
      simp only [Bool.not_eq_true', decide_eq_false_iff_not, not_lt] at ab bc ⊢
      exact ab.trans bc
    · intro a b
      simp only [Bool.or_eq_true, Bool.not_eq_true', decide_eq_false_iff_not, not_lt]
      exact le_total a b
  have distinct : (sortIds ids).Nodup := (List.mergeSort_perm ids _).nodup_iff.2 nodup
  refine (ascending.and distinct).imp ?_
  rintro a b ⟨le, ne⟩
  simp only [Bool.not_eq_true', decide_eq_false_iff_not, not_lt] at le
  exact lt_of_le_of_ne le ne

theorem pairwise_descendants (nodup : d.elements.keys.Nodup) (id : String) :
    (d.descendants id).Pairwise (· < ·) :=
  pairwise_sortIds (nodup.filter _)

/-! ### What is nested afterwards -/

/-- Of the elements there are, the markup assigns the ids of the one written and of
    those nested in it, and no others. -/
def Confined (d : Document) (u : String × String) : Prop :=
  ∀ x ∈ Markup.assignedIds u.2, x ≠ u.1 → d.has x = true → d.Within x u.1

theorem Rooted.clear_of_confined (rooted : d.Rooted) (confined : d.Confined u) :
    d.Clear u u.1 := by
  rintro y (rfl | around) assigned
  · rfl
  · by_contra other
    have inside := confined y assigned other (rooted.has_of_within around)
    exact rooted.acyclic u.1 (around.trans inside)

/-- Whatever is nested in the element afterwards has its id from the markup: a way
    from anything else to the element leads through what is gone, or it was a way
    before. -/
theorem Rooted.assigned_of_within_write (rooted : d.Rooted) (confined : d.Confined u)
    (present : d.has u.1 = true) {x : String} (within : (d.write u).Within x u.1) :
    x ∈ Markup.assignedIds u.2 ∧ x ≠ u.1 := by
  have acyclic := rooted.acyclic_write (rooted.clear_of_confined confined)
  -- an element that is not assigned has the parent it had, outside of the one written
  have kept {y p : String} (within : (d.write u).Within y u.1)
      (link : (d.write u).parent? y = some p)
      (unassigned : ¬ (y ∈ Markup.assignedIds u.2 ∧ y ≠ u.1)) :
      d.parent? y = some p ∧ ¬ d.Within y u.1 := by
    have own : y ∈ Markup.assignedIds u.2 → y = u.1 := by simpa using unassigned
    have outside : ¬ d.Within y u.1 := by
      intro nested
      rw [parent?, get?_write_of_nested rooted.keys present own nested] at link
      cases link
    rw [parent?_write_of_kept rooted.keys own outside] at link
    exact ⟨link, outside⟩
  induction within using Relation.TransGen.head_induction_on with
  | @single x link =>
    by_contra unassigned
    obtain ⟨old, outside⟩ := kept (.single link) link unassigned
    exact outside (.single old)
  | @head x p link rest ih =>
    by_contra unassigned
    obtain ⟨old, outside⟩ := kept (.head link rest) link unassigned
    have inside := confined p ih.1 ih.2 (rooted.closed x p old)
    exact outside (.head old inside)

theorem Rooted.within_write_iff (rooted : d.Rooted) (confined : d.Confined u)
    (present : d.has u.1 = true) (x : String) :
    (d.write u).Within x u.1 ↔ x ∈ Markup.assignedIds u.2 ∧ x ≠ u.1 := by
  constructor
  · exact rooted.assigned_of_within_write confined present
  · rintro ⟨assigned, other⟩
    exact .single (parent?_write_of_assigned rooted.keys present assigned other)

/-! ### What becomes of each element -/

/-- The element itself only gets other markup. -/
theorem Rooted.get?_write_self (rooted : d.Rooted) (present : d.has u.1 = true) :
    (d.write u).elements.get? u.1 = (d.elements.get? u.1).map fun e => { e with html := u.2 } := by
  rw [get?_write_of_kept rooted.keys present (fun _ => rfl) (rooted.acyclic u.1), if_pos rfl]

theorem Rooted.has_write_of_nested (rooted : d.Rooted) (present : d.has u.1 = true) {x : String}
    (nested : d.Within x u.1) (unassigned : x ∉ Markup.assignedIds u.2) :
    (d.write u).has x = false := by
  have absent := get?_write_of_nested rooted.keys present
    (fun assigned => absurd assigned unassigned) nested
  exact Bool.eq_false_iff.2 (get?_eq_none_iff.1 absent)

/-- Only the elements that the markup assigns are new. -/
theorem Rooted.has_of_has_write (rooted : d.Rooted) (present : d.has u.1 = true) {x : String}
    (there : (d.write u).has x = true) :
    d.has x = true ∨ x ∈ Markup.assignedIds u.2 ∧ x ≠ u.1 := by
  by_cases touched : d.Footprint u x
  · rcases touched with rfl | nested | assigned
    · exact .inl present
    · exact .inl nested.has
    · by_cases same : x = u.1
      · exact .inl (same ▸ present)
      · exact .inr ⟨assigned, same⟩
  · obtain ⟨e, found⟩ := has_iff.1 there
    rw [get?_write_of_outside rooted.keys touched] at found
    exact .inl (has_iff.2 ⟨e, found⟩)

/-! ### Content replaced -/

/-- The second document is the first one with new markup in an element, in place of
    everything that was nested there. -/
structure Replaced (d d' : Document) (id html : String) : Prop where
  /-- What is nested in the element is listed without repetition, in ascending order. -/
  ascending : (d'.descendants id).Pairwise (· < ·)
  nested : ∀ x, x ∈ d'.descendants id ↔ x ∈ Markup.assignedIds html ∧ x ≠ id
  /-- All of it is empty, and nested in the element directly. -/
  fresh : ∀ x ∈ d'.descendants id, d'.elements.get? x = some { html := "", parent := some id }
  gone : ∀ x ∈ d.descendants id, x ∉ Markup.assignedIds html → d'.has x = false
  shown : d'.html? id = some html
  parent : d'.parent? id = d.parent? id
  /-- Every other element keeps its markup and its parent. -/
  kept : ∀ x, d.has x = true → x ≠ id → x ∉ d.descendants id →
    d'.elements.get? x = d.elements.get? x
  /-- No other elements appear. -/
  known : ∀ x, d'.has x = true → d.has x = true ∨ x ∈ d'.descendants id
  rooted : d'.Rooted

/-- New markup whose ids are those of elements nested in the element, or of none
    there are, replaces what was nested in it and touches nothing else. -/
theorem content_replaced (rooted : d.Rooted) {id html : String} (present : d.has id = true)
    (confined : ∀ x ∈ Markup.assignedIds html,
      x = id ∨ x ∈ d.descendants id ∨ d.has x = false) :
    d.Replaced (d.setHtml id html) id html := by
  let u := (id, html)
  have inner : d.Confined u := by
    intro x assigned other there
    rcases confined x assigned with same | inside | absent
    · exact absurd same other
    · exact mem_descendants.1 inside
    · rw [there] at absent
      cases absent
  have after : (d.write u).Rooted := rooted.write (rooted.clear_of_confined inner)
  have nested (x : String) : x ∈ (d.write u).descendants id ↔ x ∈ Markup.assignedIds html ∧ x ≠ id :=
    mem_descendants.trans (rooted.within_write_iff inner present x)
  obtain ⟨e, found⟩ := has_iff.1 present
  have own : (d.write u).elements.get? id = some { e with html } := by
    rw [rooted.get?_write_self (u := u) present, found, Option.map_some]
  change d.Replaced (d.write u) id html
  refine
    { ascending := pairwise_descendants after.keys id
      nested
      fresh := ?fresh
      gone := ?gone
      shown := ?shown
      parent := ?parent
      kept := ?kept
      known := ?known
      rooted := after }
  case fresh =>
    intro x inside
    obtain ⟨assigned, other⟩ := (nested x).1 inside
    exact get?_write_of_assigned rooted.keys present assigned other
  case gone =>
    intro x inside unassigned
    exact rooted.has_write_of_nested present (mem_descendants.1 inside) unassigned
  case shown =>
    rw [html?, own, Option.map_some]
  case parent =>
    rw [parent?, parent?, own, found, Option.bind_some, Option.bind_some]
  case kept =>
    intro x there other apart
    refine get?_write_of_outside rooted.keys ?_
    rw [mem_descendants] at apart
    rintro (same | inside | assigned)
    · exact other same
    · exact apart inside
    · exact apart (inner x assigned other there)
  case known =>
    intro x there
    rcases rooted.has_of_has_write present there with before | assigned
    · exact .inl before
    · exact .inr ((nested x).2 assigned)

/-- A page with elements nested two deep, beside another element. -/
def page : Document :=
  (ofElements [("nav", "<i id=\"home\"></i>"), ("app", "<p id=\"a\"></p><p id=\"b\"></p>")]).setHtml
    "a" "<b id=\"c\"></b>"

/-- The markup assigns one id twice, one that was nested already, and the element's own. -/
def nextPage : String := "<p id=\"d\"></p><u id=\"b\"></u><i id=\"app\"></i><p id=\"d\"></p>"

theorem page_replaced :
    page.Rooted ∧ page.has "app" = true ∧
      (∀ x ∈ Markup.assignedIds nextPage,
        x = "app" ∨ x ∈ page.descendants "app" ∨ page.has x = false) ∧
      page.Replaced (page.setHtml "app" nextPage) "app" nextPage ∧
      (page.setHtml "app" nextPage).descendants "app" = ["b", "d"] := by
  have rooted : page.Rooted :=
    (content_replaced (rooted_ofElements _) (by decide +kernel) (by decide +kernel)).rooted
  have present : page.has "app" = true := by decide +kernel
  have confined : ∀ x ∈ Markup.assignedIds nextPage,
      x = "app" ∨ x ∈ page.descendants "app" ∨ page.has x = false := by
    simp only [mem_descendants]
    decide +kernel
  have listed : (page.setHtml "app" nextPage).descendants "app" = ["b", "d"] := by
    cbv
  exact ⟨rooted, present, confined, content_replaced rooted present confined, listed⟩

end Document

end PageTree.Live
