/-
  PageTree/Proofs/Live/Writes.lean
  ================================
  **Giving elements new markup, in one order or another.**

  Writing markup into an element concerns the element, the elements nested in it
  and those whose ids the markup assigns: its footprint.  Two writes whose
  footprints have no element in common can be exchanged (`write_comm`).  Documents
  are compared by what they say of each element.
-/
import PageTree.Proofs.Live.Nesting

namespace PageTree.Live

namespace Document

/-! ### Documents that say the same -/

/-- The documents say the same of every element and have seen the same. -/
structure Agrees (d d' : Document) : Prop where
  elements : ∀ id, d.elements.get? id = d'.elements.get? id
  history : d.history = d'.history
  executed : d.executed = d'.executed

theorem Agrees.refl (d : Document) : d.Agrees d := ⟨fun _ => rfl, rfl, rfl⟩

theorem Agrees.symm {d d' : Document} (h : d.Agrees d') : d'.Agrees d :=
  ⟨fun id => (h.elements id).symm, h.history.symm, h.executed.symm⟩

theorem Agrees.trans {d d' d'' : Document} (h : d.Agrees d') (h' : d'.Agrees d'') :
    d.Agrees d'' :=
  ⟨fun id => (h.elements id).trans (h'.elements id), h.history.trans h'.history,
    h.executed.trans h'.executed⟩

theorem parent?_congr {d d' : Document} {id : String}
    (h : d.elements.get? id = d'.elements.get? id) : d.parent? id = d'.parent? id := by
  rw [parent?, parent?, h]

theorem Agrees.within {d d' : Document} (h : d.Agrees d') (id outer : String) :
    d.Within id outer ↔ d'.Within id outer := by
  have parents : (fun e p => d.parent? e = some p) = fun e p => d'.parent? e = some p := by
    funext e p
    rw [parent?_congr (h.elements e)]
  rw [Within, Within, parents]

/-! ### What a write does to each element -/

theorem has_iff {d : Document} {x : String} :
    d.has x = true ↔ ∃ e, d.elements.get? x = some e := by
  rw [has, OrderedMap.contains, Option.isSome_iff_exists]

theorem get?_eq_none_iff {d : Document} {x : String} :
    d.elements.get? x = none ↔ ¬ d.has x = true := by
  rw [has, OrderedMap.contains, Option.not_isSome_iff_eq_none]

theorem Within.has {d : Document} {x y : String} (h : d.Within x y) : d.has x = true := by
  obtain ⟨p, hp, _⟩ := Relation.TransGen.head'_iff.1 h
  obtain ⟨e, found, _⟩ := Option.bind_eq_some_iff.1 hp
  exact has_iff.2 ⟨e, found⟩

theorem foldl_erase {es : OrderedMap Element} (nodup : es.keys.Nodup) (ids : List String) :
    (ids.foldl (·.erase ·) es).keys.Nodup ∧
      ∀ x, (ids.foldl (·.erase ·) es).get? x = if x ∈ ids then none else es.get? x := by
  induction ids generalizing es with
  | nil => exact ⟨nodup, fun x => by simp⟩
  | cons id ids ih =>
    obtain ⟨keys, erased⟩ := ih (OrderedMap.nodup_keys_erase nodup id)
    refine ⟨keys, fun x => ?_⟩
    rw [List.foldl_cons, erased]
    by_cases listed : x ∈ ids
    · simp [listed]
    · by_cases same : id = x
      · subst same
        simp [OrderedMap.get?_erase_self id nodup]
      · simp [listed, Ne.symm same, OrderedMap.get?_erase_of_ne same]

theorem foldl_insert {es : OrderedMap Element} (nodup : es.keys.Nodup) (element : Element)
    (ids : List String) :
    (ids.foldl (fun es child => es.insert child element) es).keys.Nodup ∧
      ∀ x, (ids.foldl (fun es child => es.insert child element) es).get? x
        = if x ∈ ids then some element else es.get? x := by
  induction ids generalizing es with
  | nil => exact ⟨nodup, fun x => by simp⟩
  | cons id ids ih =>
    obtain ⟨keys, inserted⟩ := ih (OrderedMap.nodup_keys_insert nodup id element)
    refine ⟨keys, fun x => ?_⟩
    rw [List.foldl_cons, inserted]
    by_cases listed : x ∈ ids
    · simp [listed]
    · by_cases same : id = x
      · subst same
        simp
      · simp [listed, OrderedMap.get?_insert, same, Ne.symm same]

/-- Gives an element new markup. -/
def write (d : Document) (w : String × String) : Document := d.setHtml w.1 w.2

theorem write_of_absent {d : Document} {w : String × String} (absent : ¬ d.has w.1 = true) :
    d.write w = d :=
  setHtml_of_not_has w.2 (by simpa using absent)

theorem write_elements {d : Document} {w : String × String} (present : d.has w.1 = true) :
    (d.write w).elements
      = ((Markup.assignedIds w.2).filter (· != w.1)).foldl
          (fun es child => es.insert child { parent := some w.1 })
          (((d.descendants w.1).foldl (·.erase ·) d.elements).modify w.1
            fun e => { e with html := w.2 }) := by
  rw [write, setHtml, if_pos present]
  rfl

theorem nodup_write {d : Document} (nodup : d.elements.keys.Nodup) (w : String × String) :
    (d.write w).elements.keys.Nodup := by
  by_cases present : d.has w.1 = true
  · rw [write_elements present]
    refine (foldl_insert ?_ _ _).1
    rw [OrderedMap.keys_modify]
    exact (foldl_erase nodup _).1
  · rwa [write_of_absent present]

/-- An element whose id is assigned is new, those that were nested are gone, and
    the element itself has the markup. -/
theorem get?_write {d : Document} (nodup : d.elements.keys.Nodup) {w : String × String}
    (present : d.has w.1 = true) (x : String) :
    (d.write w).elements.get? x
      = if x ∈ (Markup.assignedIds w.2).filter (· != w.1) then some { parent := some w.1 }
        else if w.1 = x then (if x ∈ d.descendants w.1 then none else d.elements.get? x).map
            fun e => { e with html := w.2 }
        else if x ∈ d.descendants w.1 then none else d.elements.get? x := by
  obtain ⟨keys, erased⟩ := foldl_erase nodup (d.descendants w.1)
  rw [write_elements present, (foldl_insert (by rwa [OrderedMap.keys_modify]) _ _).2,
    OrderedMap.get?_modify, erased]
  simp only [beq_iff_eq]

theorem get?_write_of_assigned {d : Document} (nodup : d.elements.keys.Nodup)
    {w : String × String} (present : d.has w.1 = true) {x : String}
    (assigned : x ∈ Markup.assignedIds w.2) (other : x ≠ w.1) :
    (d.write w).elements.get? x = some { parent := some w.1 } := by
  rw [get?_write nodup present, if_pos (by simp [assigned, other])]

theorem get?_write_of_nested {d : Document} (nodup : d.elements.keys.Nodup)
    {w : String × String} (present : d.has w.1 = true) {x : String}
    (unassigned : x ∈ Markup.assignedIds w.2 → x = w.1) (nested : d.Within x w.1) :
    (d.write w).elements.get? x = none := by
  rw [get?_write nodup present, if_neg (by simpa using unassigned)]
  simp [mem_descendants, nested]

theorem get?_write_of_kept {d : Document} (nodup : d.elements.keys.Nodup)
    {w : String × String} (present : d.has w.1 = true) {x : String}
    (unassigned : x ∈ Markup.assignedIds w.2 → x = w.1) (outside : ¬ d.Within x w.1) :
    (d.write w).elements.get? x
      = if w.1 = x then (d.elements.get? x).map fun e => { e with html := w.2 }
        else d.elements.get? x := by
  have listed : x ∉ d.descendants w.1 := by rwa [mem_descendants]
  rw [get?_write nodup present, if_neg (by simpa using unassigned), if_neg listed]

theorem parent?_write_of_assigned {d : Document} (nodup : d.elements.keys.Nodup)
    {w : String × String} (present : d.has w.1 = true) {x : String}
    (assigned : x ∈ Markup.assignedIds w.2) (other : x ≠ w.1) :
    (d.write w).parent? x = some w.1 := by
  rw [parent?, get?_write_of_assigned nodup present assigned other]
  rfl

theorem parent?_write_of_kept {d : Document} (nodup : d.elements.keys.Nodup)
    {w : String × String} {x : String} (unassigned : x ∈ Markup.assignedIds w.2 → x = w.1)
    (outside : ¬ d.Within x w.1) : (d.write w).parent? x = d.parent? x := by
  by_cases present : d.has w.1 = true
  · rw [parent?, parent?, get?_write_of_kept nodup present unassigned outside]
    split
    · cases d.elements.get? x <;> rfl
    · rfl
  · rw [write_of_absent present]

/-- After a write an element has a new parent only if that is the element
    written. -/
theorem parent?_write {d : Document} (nodup : d.elements.keys.Nodup) {w : String × String}
    {x p : String} (h : (d.write w).parent? x = some p) : p = w.1 ∨ d.parent? x = some p := by
  by_cases present : d.has w.1 = true
  swap
  · rw [write_of_absent present] at h
    exact .inr h
  by_cases assigned : x ∈ Markup.assignedIds w.2 ∧ x ≠ w.1
  · rw [parent?_write_of_assigned nodup present assigned.1 assigned.2] at h
    exact .inl (Option.some.inj h).symm
  have unassigned : x ∈ Markup.assignedIds w.2 → x = w.1 := by simpa using assigned
  by_cases nested : d.Within x w.1
  · rw [parent?, get?_write_of_nested nodup present unassigned nested] at h
    cases h
  · rw [parent?_write_of_kept nodup unassigned nested] at h
    exact .inr h

/-- The elements that a write concerns. -/
def Footprint (d : Document) (w : String × String) (x : String) : Prop :=
  x = w.1 ∨ d.Within x w.1 ∨ x ∈ Markup.assignedIds w.2

theorem get?_write_of_outside {d : Document} (nodup : d.elements.keys.Nodup)
    {w : String × String} {x : String} (outside : ¬ d.Footprint w x) :
    (d.write w).elements.get? x = d.elements.get? x := by
  obtain ⟨other, apart, unassigned⟩ : x ≠ w.1 ∧ ¬ d.Within x w.1 ∧
      x ∉ Markup.assignedIds w.2 := by
    simpa [Footprint, not_or] using outside
  by_cases present : d.has w.1 = true
  · rw [get?_write_of_kept nodup present (fun assigned => absurd assigned unassigned) apart,
      if_neg (Ne.symm other)]
  · rw [write_of_absent present]

theorem get?_write_congr {d d' : Document} (nodup : d.elements.keys.Nodup)
    (nodup' : d'.elements.keys.Nodup) {w : String × String}
    (within : ∀ x, d.Within x w.1 ↔ d'.Within x w.1)
    (same : ∀ x, d.Footprint w x → d.elements.get? x = d'.elements.get? x) {x : String}
    (inside : d.Footprint w x) : (d.write w).elements.get? x = (d'.write w).elements.get? x := by
  have has : d.has w.1 = d'.has w.1 := by
    rw [Document.has, Document.has, OrderedMap.contains, OrderedMap.contains, same w.1 (.inl rfl)]
  have listed : (x ∈ d.descendants w.1) = (x ∈ d'.descendants w.1) := by
    rw [mem_descendants, mem_descendants, within]
  by_cases present : d.has w.1 = true
  · rw [get?_write nodup present, get?_write nodup' (has ▸ present), same x inside]
    simp only [listed]
  · rw [write_of_absent present, write_of_absent (has ▸ present)]
    exact same x inside

theorem Agrees.write {d d' : Document} (h : d.Agrees d') (nodup : d.elements.keys.Nodup)
    (nodup' : d'.elements.keys.Nodup) (w : String × String) : (d.write w).Agrees (d'.write w) := by
  refine ⟨fun x => ?_, ?_, ?_⟩
  · by_cases inside : d.Footprint w x
    · exact get?_write_congr nodup nodup' (fun y => h.within y w.1) (fun y _ => h.elements y) inside
    · have outside : ¬ d'.Footprint w x := by
        rwa [Footprint, ← h.within x w.1]
      rw [get?_write_of_outside nodup inside, get?_write_of_outside nodup' outside, h.elements]
  · rw [Document.write, Document.write, history_setHtml, history_setHtml, h.history]
  · rw [Document.write, Document.write, executed_setHtml, executed_setHtml, h.executed]

/-! ### Writes that do not meet -/

/-- No element is concerned by both writes. -/
def Apart (d : Document) (v w : String × String) : Prop := ∀ x, d.Footprint v x → ¬ d.Footprint w x

/-- The elements that a write concerns, one after another. -/
def footprint (d : Document) (w : String × String) : List String :=
  w.1 :: (d.descendants w.1 ++ Markup.assignedIds w.2)

theorem mem_footprint {d : Document} {w : String × String} {x : String} :
    x ∈ d.footprint w ↔ d.Footprint w x := by
  simp [footprint, Footprint, mem_descendants]

instance (d : Document) (v w : String × String) : Decidable (d.Apart v w) :=
  decidable_of_iff (∀ x ∈ d.footprint v, x ∉ d.footprint w)
    (by simp only [mem_footprint, Apart])

theorem Apart.symm {d : Document} {v w : String × String} (h : d.Apart v w) : d.Apart w v :=
  fun x hw hv => h x hv hw

/-- A write leaves alone what is nested in an element it does not meet. -/
theorem within_write_of_apart {d : Document} (nodup : d.elements.keys.Nodup)
    {v w : String × String} (apart : d.Apart v w) (x : String) :
    (d.write v).Within x w.1 ↔ d.Within x w.1 := by
  constructor
  · intro within
    induction within using Relation.TransGen.head_induction_on with
    | @single y h =>
      rcases parent?_write nodup h with same | old
      · exact absurd (.inl same) (apart w.1 · (.inl rfl))
      · exact .single old
    | @head y p h _ ih =>
      rcases parent?_write nodup h with rfl | old
      · exact absurd (.inr (.inl ih)) (apart v.1 (.inl rfl))
      · exact .head old ih
  · intro within
    -- every element on the way is nested in the other one, so it is not touched
    have kept (y p : String) (nested : d.Within y w.1) (h : d.parent? y = some p) :
        (d.write v).parent? y = some p := by
      have outside : ¬ d.Footprint v y := fun inside => apart y inside (.inr (.inl nested))
      rw [parent?_congr (get?_write_of_outside nodup outside)]
      exact h
    induction within using Relation.TransGen.head_induction_on with
    | @single y h => exact .single (kept y _ (.single h) h)
    | @head y p h rest ih => exact .head (kept y p (.head h rest) h) ih

theorem footprint_write_of_apart {d : Document} (nodup : d.elements.keys.Nodup)
    {v w : String × String} (apart : d.Apart v w) (x : String) :
    (d.write v).Footprint w x ↔ d.Footprint w x := by
  rw [Footprint, Footprint, within_write_of_apart nodup apart]

theorem write_comm {d : Document} (nodup : d.elements.keys.Nodup) {v w : String × String}
    (apart : d.Apart v w) : ((d.write v).write w).Agrees ((d.write w).write v) := by
  -- the second write does in its footprint what it would have done alone
  have alone {v w : String × String} (apart : d.Apart v w) {x : String}
      (inside : d.Footprint w x) :
      ((d.write v).write w).elements.get? x = (d.write w).elements.get? x := by
    refine get?_write_congr (nodup_write nodup _) nodup
      (fun y => within_write_of_apart nodup apart y) (fun y hy => ?_)
      ((footprint_write_of_apart nodup apart x).2 inside)
    rw [footprint_write_of_apart nodup apart] at hy
    exact get?_write_of_outside nodup fun hv => apart y hv hy
  have untouched {v w : String × String} (apart : d.Apart v w) {x : String}
      (outside : ¬ d.Footprint w x) :
      ((d.write v).write w).elements.get? x = (d.write v).elements.get? x :=
    get?_write_of_outside (nodup_write nodup _)
      (by rwa [footprint_write_of_apart nodup apart])
  refine ⟨fun x => ?_, by simp [write], by simp [write]⟩
  by_cases inW : d.Footprint w x
  · have outV : ¬ d.Footprint v x := fun inV => apart x inV inW
    rw [alone apart inW, untouched apart.symm outV]
  · by_cases inV : d.Footprint v x
    · rw [untouched apart inW, alone apart.symm inV]
    · rw [untouched apart inW, untouched apart.symm inV, get?_write_of_outside nodup inV,
        get?_write_of_outside nodup inW]

/-! ### Many writes -/

def writeAll (d : Document) (ws : List (String × String)) : Document := ws.foldl write d

theorem Agrees.writeAll {d d' : Document} (h : d.Agrees d') (nodup : d.elements.keys.Nodup)
    (nodup' : d'.elements.keys.Nodup) (ws : List (String × String)) :
    (d.writeAll ws).Agrees (d'.writeAll ws) := by
  induction ws generalizing d d' with
  | nil => exact h
  | cons w ws ih =>
    exact ih (h.write nodup nodup' w) (nodup_write nodup _) (nodup_write nodup' _)

end Document

end PageTree.Live
