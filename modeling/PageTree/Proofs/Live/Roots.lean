/-
  PageTree/Proofs/Live/Roots.lean
  ===============================
  **Elements that stay where they are.**

  In a document made by inserting elements every way outwards ends at an element
  of the document.  A write keeps that as long as its markup assigns no id of an
  element around the one written.  Where several elements are written, none of
  them nested in another one, and no markup assigns the id of one of them or of
  an element around one, they all stay where they are, and each shows what was
  written into it.

    * `Rooted.write`: a write leaves every way outwards with an end.
    * `Separate.writeAll`: what elements show after many writes.
-/
import PageTree.Proofs.Live.Overlaps
import PageTree.Proofs.Live.Trails

namespace PageTree.Live

namespace Document

variable {d : Document} {u : String × String}

/-! ### Ways outwards that end -/

structure Rooted (d : Document) : Prop where
  keys : d.elements.keys.Nodup
  closed : ∀ x p, d.parent? x = some p → d.has p = true
  acyclic : ∀ x, ¬ d.Within x x

theorem Rooted.has_of_within (rooted : d.Rooted) {x y : String} (h : d.Within x y) :
    d.has y = true := by
  obtain ⟨z, _, link⟩ := Relation.TransGen.tail'_iff.1 h
  exact rooted.closed z y link

/-- A loop would lead through the element written: nothing else has a new parent.
    But the way outwards from that element is what it was. -/
theorem Rooted.acyclic_write (rooted : d.Rooted) (clear : d.Clear u u.1) (x : String) :
    ¬ (d.write u).Within x x := by
  have outwards (y : String) : (d.write u).Within u.1 y ↔ d.Within u.1 y :=
    within_write_of_clear rooted.keys clear (rooted.acyclic u.1) y
  intro loop
  have reaches {z : String} (h : (d.write u).Within x z) :
      d.Within x z ∨ (d.write u).Within x u.1 := by
    induction h with
    | @single z h =>
      rcases parent?_write rooted.keys h with rfl | old
      · exact .inr (.single h)
      · exact .inl (.single old)
    | @tail y z way h ih =>
      rcases parent?_write rooted.keys h with rfl | old
      · exact .inr (.tail way h)
      · exact ih.imp_left fun within => .tail within old
  rcases reaches loop with old | through
  · exact rooted.acyclic x old
  · have around := through.ring loop
    rw [outwards] at around
    exact rooted.acyclic _ around

theorem Rooted.closed_write (rooted : d.Rooted) {x p : String}
    (h : (d.write u).parent? x = some p) : (d.write u).has p = true := by
  by_cases present : d.has u.1 = true
  swap
  · rw [write_of_absent present] at h ⊢
    exact rooted.closed x p h
  rw [has_write rooted.keys present]
  by_cases assigned : x ∈ Markup.assignedIds u.2 ∧ x ≠ u.1
  · rw [parent?_write_of_assigned rooted.keys present assigned.1 assigned.2] at h
    obtain rfl := Option.some.inj h
    exact .inr ⟨present, rooted.acyclic u.1⟩
  have unassigned : x ∈ Markup.assignedIds u.2 → x = u.1 := by simpa using assigned
  by_cases nested : d.Within x u.1
  · rw [parent?, get?_write_of_nested rooted.keys present unassigned nested] at h
    cases h
  · rw [parent?_write_of_kept rooted.keys unassigned nested] at h
    refine .inr ⟨rooted.closed x p h, fun above => ?_⟩
    exact nested (.head h above)

theorem Rooted.write (rooted : d.Rooted) (clear : d.Clear u u.1) : (d.write u).Rooted where
  keys := nodup_write rooted.keys u
  closed _ _ := rooted.closed_write
  acyclic := rooted.acyclic_write clear

/-- An element that is inserted is nested in no other, so nothing is around it. -/
theorem Rooted.insert (rooted : d.Rooted) (id html : String) : (d.insert id html).Rooted := by
  let inserted : Document := { d with elements := d.elements.insert id {} }
  have orphan : inserted.parent? id = none := by
    simp [inserted, parent?]
  have link {x p : String} (h : inserted.parent? x = some p) : d.parent? x = some p := by
    rw [parent?, OrderedMap.get?_insert] at h
    split at h
    · cases h
    · exact h
  have within {x y : String} (h : inserted.Within x y) : d.Within x y :=
    Relation.TransGen.mono (fun _ _ => link) _ _ h
  have rooted' : inserted.Rooted := by
    refine ⟨OrderedMap.nodup_keys_insert rooted.keys id {}, ?_, ?_⟩
    · intro x p h
      have present := rooted.closed x p (link h)
      rw [has_iff] at present ⊢
      rw [OrderedMap.get?_insert]
      split
      · exact ⟨_, rfl⟩
      · exact present
    · intro x loop
      exact rooted.acyclic x (within loop)
  have clear : inserted.Clear (id, html) id := by
    intro y hy _
    rcases hy with rfl | above
    · rfl
    · obtain ⟨p, h, _⟩ := Relation.TransGen.head'_iff.1 above
      rw [orphan] at h
      cases h
  exact rooted'.write clear

theorem rooted_ofElements (elements : List (String × String)) : (ofElements elements).Rooted := by
  rw [ofElements]
  refine List.foldlRecOn elements _ ⟨List.nodup_nil, ?_, ?_⟩ ?_
  · intro x p h
    cases h
  · intro x loop
    obtain ⟨p, h, _⟩ := Relation.TransGen.head'_iff.1 loop
    cases h
  · intro d rooted e _
    exact rooted.insert e.1 e.2

/-! ### Elements apart from each other -/

/-- The elements are there, and none is nested in another one. -/
structure Separate (d : Document) (M : String → Prop) : Prop where
  present : ∀ x, M x → d.has x = true
  apart : ∀ x y, M x → M y → ¬ d.Within x y

variable {M : String → Prop}

/-- Markup that assigns no id of an element outside of the one written is clear of
    all elements that stand apart from it. -/
theorem Separate.clear (separate : d.Separate M) (rooted : d.Rooted) (own : M u.1)
    (fresh : ∀ y ∈ Markup.assignedIds u.2, y ≠ u.1 → d.has y = true → d.Within y u.1)
    {x : String} (hx : M x) : d.Clear u x := by
  intro y hy assigned
  by_contra other
  rcases hy with rfl | above
  · have nested := fresh y assigned other (separate.present y hx)
    exact separate.apart y u.1 hx own nested
  · have nested := fresh y assigned other (rooted.has_of_within above)
    exact separate.apart x u.1 hx own (above.trans nested)

section

variable (separate : d.Separate M) (rooted : d.Rooted) (own : M u.1)
  (clear : ∀ x, M x → d.Clear u x)

include separate rooted own clear

theorem Separate.within_write {x : String} (hx : M x) (y : String) :
    (d.write u).Within x y ↔ d.Within x y :=
  within_write_of_clear rooted.keys (clear x hx) (separate.apart x u.1 hx own) y

theorem Separate.get?_write {x : String} (hx : M x) :
    (d.write u).elements.get? x
      = if u.1 = x then (d.elements.get? x).map fun e => { e with html := u.2 }
        else d.elements.get? x :=
  get?_write_of_kept rooted.keys (separate.present u.1 own) (clear x hx x (.inl rfl))
    (separate.apart x u.1 hx own)

theorem Separate.html?_write {x : String} (hx : M x) :
    (d.write u).html? x = if u.1 = x then some u.2 else d.html? x := by
  rw [html?, separate.get?_write rooted own clear hx]
  split
  · obtain ⟨e, found⟩ := has_iff.1 (separate.present x hx)
    rw [found]
    rfl
  · rfl

theorem Separate.write : (d.write u).Separate M := by
  constructor
  · intro x hx
    obtain ⟨e, found⟩ := has_iff.1 (separate.present x hx)
    rw [has_iff, separate.get?_write rooted own clear hx, found]
    split <;> exact ⟨_, rfl⟩
  · intro x y hx hy within
    rw [separate.within_write rooted own clear hx] at within
    exact separate.apart x y hx hy within

end

/-- After writes that are clear of all elements, every element shows what was
    written into it, and the others what they showed. -/
theorem Separate.writeAll (ws : List (String × String)) (separate : d.Separate M)
    (rooted : d.Rooted) (own : ∀ w ∈ ws, M w.1) (clear : ∀ w ∈ ws, ∀ x, M x → d.Clear w x) :
    (d.writeAll ws).Separate M ∧ (d.writeAll ws).Rooted ∧
      ∀ x html, M x → (∀ w ∈ ws, w.1 = x → w.2 = html) →
        (d.writeAll ws).html? x = if x ∈ ws.map (·.1) then some html else d.html? x := by
  induction ws generalizing d with
  | nil => exact ⟨separate, rooted, fun _ _ _ _ => rfl⟩
  | cons w ws ih =>
    obtain ⟨own, owns⟩ := List.forall_mem_cons.1 own
    obtain ⟨clear, clears⟩ := List.forall_mem_cons.1 clear
    have still : ∀ w' ∈ ws, ∀ x, M x → (d.write w).Clear w' x := by
      intro w' hw' x hx y hy
      rw [separate.within_write rooted own clear hx] at hy
      exact clears w' hw' x hx y hy
    obtain ⟨separate', rooted', shows⟩ := ih (separate.write rooted own clear)
      (rooted.write (clear w.1 own)) owns still
    refine ⟨separate', rooted', fun x html hx same => ?_⟩
    obtain ⟨here, there⟩ := List.forall_mem_cons.1 same
    have later : (d.writeAll (w :: ws)).html? x = _ := shows x html hx there
    rw [later, separate.html?_write rooted own clear hx]
    by_cases eq : w.1 = x
    · simp [eq, here eq]
    · have listed : x ∈ (w :: ws).map (·.1) ↔ x ∈ ws.map (·.1) := by
        simp [Ne.symm eq]
      simp only [listed, if_neg eq]

end Document

end PageTree.Live
