/-
  PageTree/Proofs/Live/Overlaps.lean
  ==================================
  **Writes that meet and can still be exchanged.**

  Writing markup into an element takes away the elements nested in it, unless the
  markup assigns their ids again.  What has been taken away cannot be written any
  more, and what had been written there is gone: of two such writes the outer one
  decides, whichever comes first.  With the writes that do not meet, and with
  those to elements that are not there, this makes writes compatible, and writes
  that are compatible in pairs can be made in any order (`writeAll_perm`).
-/
import PageTree.Proofs.Live.Writes

namespace PageTree.Live

namespace Document

/-- An element around one that encloses itself is on the same ring. -/
theorem Within.ring {d : Document} {x y : String} (h : d.Within x y) (loop : d.Within x x) :
    d.Within y y := by
  induction h using Relation.TransGen.head_induction_on with
  | @single x hp =>
    obtain ⟨p, hp', rest⟩ := Relation.TransGen.head'_iff.1 loop
    obtain rfl := Option.some.inj (hp.symm.trans hp')
    exact Relation.TransGen.tail' rest hp
  | @head x p hp _ ih =>
    obtain ⟨p', hp', rest⟩ := Relation.TransGen.head'_iff.1 loop
    obtain rfl := Option.some.inj (hp.symm.trans hp')
    exact ih (Relation.TransGen.tail' rest hp)

instance (d : Document) (x y : String) : Decidable (d.Within x y) :=
  decidable_of_iff _ isNestedIn_iff

/-! ### Compatible writes -/

/-- The document has no such element and nothing in it. -/
def Fresh (d : Document) (x : String) : Prop := ¬ d.has x = true ∧ ∀ y, d.parent? y ≠ some x

instance (d : Document) (x : String) : Decidable (d.Fresh x) :=
  decidable_of_iff (¬ d.has x = true ∧ ∀ y ∈ d.elements.keys, d.parent? y ≠ some x) <| by
    refine and_congr_right fun _ => ⟨fun h y link => ?_, fun h y _ => h y⟩
    exact h y (mem_keys_of_parent? link) link

/-- The markup assigns no ids but that of the element, those of elements nested in
    it and fresh ones. -/
def Settled (d : Document) (w : String × String) : Prop :=
  ∀ x ∈ Markup.assignedIds w.2, x ≠ w.1 → d.Within x w.1 ∨ d.Fresh x

instance (d : Document) (w : String × String) : Decidable (d.Settled w) :=
  inferInstanceAs (Decidable (∀ x ∈ Markup.assignedIds w.2, x ≠ w.1 → d.Within x w.1 ∨ d.Fresh x))

/-- The first write takes away the element of the second. -/
structure Drops (d : Document) (v w : String × String) : Prop where
  present : d.has v.1 = true
  rooted : ¬ d.Within v.1 v.1
  inside : d.Within w.1 v.1
  lost : w.1 ∉ Markup.assignedIds v.2
  settled : d.Settled w

instance (d : Document) (v w : String × String) : Decidable (d.Drops v w) :=
  decidable_of_iff (d.has v.1 = true ∧ ¬ d.Within v.1 v.1 ∧ d.Within w.1 v.1 ∧
      w.1 ∉ Markup.assignedIds v.2 ∧ d.Settled w)
    ⟨fun ⟨present, rooted, inside, lost, settled⟩ => ⟨present, rooted, inside, lost, settled⟩,
      fun ⟨present, rooted, inside, lost, settled⟩ => ⟨present, rooted, inside, lost, settled⟩⟩

/-- The first write has no element, and the second does not make it. -/
def Idle (d : Document) (v w : String × String) : Prop :=
  ¬ d.has v.1 = true ∧ v.1 ∉ Markup.assignedIds w.2

instance (d : Document) (v w : String × String) : Decidable (d.Idle v w) :=
  inferInstanceAs (Decidable (_ ∧ _))

inductive Compatible (d : Document) (v w : String × String) : Prop
  | apart (h : d.Apart v w)
  | drops (h : d.Drops v w)
  | dropped (h : d.Drops w v)
  | idle (h : d.Idle v w)
  | idled (h : d.Idle w v)

instance (d : Document) (v w : String × String) : Decidable (d.Compatible v w) :=
  decidable_of_iff (d.Apart v w ∨ d.Drops v w ∨ d.Drops w v ∨ d.Idle v w ∨ d.Idle w v) <| by
    constructor
    · rintro (h | h | h | h | h)
      exacts [.apart h, .drops h, .dropped h, .idle h, .idled h]
    · rintro (h | h | h | h | h) <;> simp [h]

theorem Compatible.symm {d : Document} {v w : String × String} (h : d.Compatible v w) :
    d.Compatible w v := by
  cases h with
  | apart h => exact .apart h.symm
  | drops h => exact .dropped h
  | dropped h => exact .drops h
  | idle h => exact .idled h
  | idled h => exact .idle h

section

variable {d : Document} {u v w : String × String}

/-! ### What a write leaves of the nesting -/

theorem has_write (nodup : d.elements.keys.Nodup) (present : d.has u.1 = true) (x : String) :
    (d.write u).has x = true ↔
      (x ∈ Markup.assignedIds u.2 ∧ x ≠ u.1) ∨ (d.has x = true ∧ ¬ d.Within x u.1) := by
  rw [has_iff, has_iff]
  by_cases assigned : x ∈ Markup.assignedIds u.2 ∧ x ≠ u.1
  · simp [get?_write_of_assigned nodup present assigned.1 assigned.2, assigned]
  · have unassigned : x ∈ Markup.assignedIds u.2 → x = u.1 := by simpa using assigned
    by_cases nested : d.Within x u.1
    · simp only [get?_write_of_nested nodup present unassigned nested, assigned, nested]
      simp
    · rw [get?_write_of_kept nodup present unassigned nested]
      split <;> simp [assigned, nested, -not_and]

theorem get?_write_of_gone (nodup : d.elements.keys.Nodup) (present : d.has u.1 = true)
    {x : String} (unassigned : x ∈ Markup.assignedIds u.2 → x = u.1)
    (h : d.Within x u.1 ∨ ¬ d.has x = true) : (d.write u).elements.get? x = none := by
  rw [get?_eq_none_iff, has_write nodup present]
  rintro (⟨assigned, other⟩ | ⟨has, outside⟩)
  · exact other (unassigned assigned)
  · exact h.elim outside (absurd has)

theorem absent_write (nodup : d.elements.keys.Nodup) {x : String} (absent : ¬ d.has x = true)
    (unassigned : x ∉ Markup.assignedIds u.2) : ¬ (d.write u).has x = true := by
  by_cases present : d.has u.1 = true
  · simp [has_write nodup present, absent, unassigned]
  · rwa [write_of_absent present]

/-- The markup assigns no id of the element or of one around it, but that of the
    element written. -/
def Clear (d : Document) (w : String × String) (x : String) : Prop :=
  ∀ y, y = x ∨ d.Within x y → y ∈ Markup.assignedIds w.2 → y = w.1

theorem Clear.up {x p : String} (clear : d.Clear u x) (link : d.parent? x = some p) :
    d.Clear u p := by
  intro y hy assigned
  rcases hy with rfl | above
  · exact clear y (.inr (.single link)) assigned
  · exact clear y (.inr (.head link above)) assigned

/-- A write that is clear of an element and does not take it away leaves the way
    outwards from it as it was. -/
theorem within_write_of_clear (nodup : d.elements.keys.Nodup) {x : String} (clear : d.Clear u x)
    (outside : ¬ d.Within x u.1) (y : String) : (d.write u).Within x y ↔ d.Within x y := by
  constructor
  · intro within
    induction within using Relation.TransGen.head_induction_on with
    | single h =>
      rw [parent?_write_of_kept nodup (clear _ (.inl rfl)) outside] at h
      exact .single h
    | head h _ ih =>
      rw [parent?_write_of_kept nodup (clear _ (.inl rfl)) outside] at h
      exact .head h (ih (clear.up h) fun nested => outside (.head h nested))
  · intro within
    induction within using Relation.TransGen.head_induction_on with
    | single h =>
      refine .single ?_
      rwa [parent?_write_of_kept nodup (clear _ (.inl rfl)) outside]
    | head h _ ih =>
      refine .head ?_ (ih (clear.up h) fun nested => outside (.head h nested))
      rwa [parent?_write_of_kept nodup (clear _ (.inl rfl)) outside]

/-- A settled write moves no element but those nested in its own and fresh ones,
    so the way outwards from any other element is what it was. -/
theorem within_write_of_kept (nodup : d.elements.keys.Nodup) (settled : d.Settled u) {x : String}
    (unassigned : x ∈ Markup.assignedIds u.2 → x = u.1) (outside : ¬ d.Within x u.1)
    (y : String) : (d.write u).Within x y ↔ d.Within x y := by
  refine within_write_of_clear nodup ?_ outside y
  intro y hy assigned
  rcases hy with rfl | above
  · exact unassigned assigned
  · by_contra other
    rcases settled y assigned other with nested | fresh
    · exact outside (above.trans nested)
    · obtain ⟨z, _, link⟩ := Relation.TransGen.tail'_iff.1 above
      exact fresh.2 z link

theorem within_write_of_assigned (nodup : d.elements.keys.Nodup) (present : d.has u.1 = true)
    (rooted : ¬ d.Within u.1 u.1) (settled : d.Settled u) {x y : String}
    (assigned : x ∈ Markup.assignedIds u.2) (other : x ≠ u.1) (h : u.1 = y ∨ d.Within u.1 y) :
    (d.write u).Within x y := by
  have link := parent?_write_of_assigned nodup present assigned other
  rcases h with rfl | h
  · exact .single link
  · exact .head link ((within_write_of_kept nodup settled (fun _ => rfl) rooted y).2 h)

theorem fresh_write (nodup : d.elements.keys.Nodup) (present : d.has u.1 = true) {x : String}
    (unassigned : x ∉ Markup.assignedIds u.2) (other : x ≠ u.1)
    (h : d.Within x u.1 ∨ d.Fresh x) : (d.write u).Fresh x := by
  have absent : ¬ (d.write u).has x = true := by
    rw [has_write nodup present]
    rcases h with nested | fresh
    · simp [unassigned, nested]
    · simp [unassigned, fresh.1]
  refine ⟨absent, fun y link => ?_⟩
  rcases parent?_write nodup link with own | old
  · exact other own
  · rcases h with nested | fresh
    · -- what was nested in it has gone with it, or has been assigned
      have below : d.Within y u.1 := .head old nested
      have has : (d.write u).has y = true := Within.has (.single link)
      rw [has_write nodup present] at has
      rcases has with ⟨assigned, apart⟩ | ⟨_, outside⟩
      · rw [parent?_write_of_assigned nodup present assigned apart] at link
        exact other (Option.some.inj link).symm
      · exact outside below
    · exact fresh.2 y old

/-! ### One write inside another -/

theorem Drops.other (h : d.Drops v w) : w.1 ≠ v.1 := by
  intro same
  have inside := h.inside
  rw [same] at inside
  exact h.rooted inside

theorem Drops.apart (h : d.Drops v w) : ¬ d.Within v.1 w.1 := fun within =>
  h.rooted (within.trans h.inside)

theorem Drops.rooted_inside (h : d.Drops v w) : ¬ d.Within w.1 w.1 := fun loop =>
  h.rooted (h.inside.ring loop)

theorem Drops.unassigned (h : d.Drops v w) : v.1 ∉ Markup.assignedIds w.2 := by
  intro assigned
  rcases h.settled v.1 assigned h.other.symm with within | fresh
  · exact h.apart within
  · exact fresh.1 h.present

theorem Drops.gone (nodup : d.elements.keys.Nodup) (h : d.Drops v w) :
    ¬ (d.write v).has w.1 = true := by
  simp [has_write nodup h.present, h.lost, h.inside]

theorem Drops.goes_of_footprint (h : d.Drops v w) {x : String} (met : d.Footprint w x) :
    d.Within x v.1 ∨ ¬ d.has x = true := by
  rcases met with rfl | within | assigned
  · exact .inl h.inside
  · exact .inl (within.trans h.inside)
  · by_cases own : x = w.1
    · exact .inl (own ▸ h.inside)
    · exact (h.settled x assigned own).imp (·.trans h.inside) (·.1)

/-- The inner write does not change what goes with the outer one. -/
theorem Drops.goes_iff (nodup : d.elements.keys.Nodup) (h : d.Drops v w) (x : String) :
    (d.write w).Within x v.1 ∨ ¬ (d.write w).has x = true ↔
      d.Within x v.1 ∨ ¬ d.has x = true := by
  have inner : d.has w.1 = true := h.inside.has
  by_cases new : x ∈ Markup.assignedIds w.2 ∧ x ≠ w.1
  · have after : (d.write w).Within x v.1 :=
      within_write_of_assigned nodup inner h.rooted_inside h.settled new.1 new.2 (.inr h.inside)
    exact iff_of_true (.inl after) (h.goes_of_footprint (.inr (.inr new.1)))
  have kept : x ∈ Markup.assignedIds w.2 → x = w.1 := by simpa using new
  by_cases inside : d.Within x w.1
  · have gone : ¬ (d.write w).has x = true := by simp [has_write nodup inner, new, inside]
    exact iff_of_true (.inr gone) (h.goes_of_footprint (.inr (.inl inside)))
  · have stays : (d.write w).has x = true ↔ d.has x = true := by
      simp [has_write nodup inner, new, inside]
    rw [within_write_of_kept nodup h.settled kept inside, stays]

/-- The outer of the two writes decides, whether the inner one came before or not. -/
theorem write_comm_of_drops (nodup : d.elements.keys.Nodup) (h : d.Drops v w) :
    ((d.write v).write w).Agrees ((d.write w).write v) := by
  rw [write_of_absent (h.gone nodup)]
  have nodup' := nodup_write nodup w
  have inner : d.has w.1 = true := h.inside.has
  have present : (d.write w).has v.1 = true :=
    (has_write nodup inner v.1).2 (.inr ⟨h.present, h.apart⟩)
  refine ⟨fun x => ?_, by simp [write], by simp [write]⟩
  by_cases assigned : x ∈ Markup.assignedIds v.2 ∧ x ≠ v.1
  · rw [get?_write_of_assigned nodup h.present assigned.1 assigned.2,
      get?_write_of_assigned nodup' present assigned.1 assigned.2]
  have left : x ∈ Markup.assignedIds v.2 → x = v.1 := by simpa using assigned
  by_cases goes : d.Within x v.1 ∨ ¬ d.has x = true
  · rw [get?_write_of_gone nodup h.present left goes,
      get?_write_of_gone nodup' present left ((h.goes_iff nodup x).2 goes)]
  · -- what stays is outside the outer element, so the inner write does not concern it
    have stays := mt (h.goes_iff nodup x).1 goes
    have apart : ¬ d.Footprint w x := fun met => goes (h.goes_of_footprint met)
    rw [get?_write_of_kept nodup h.present left (not_or.1 goes).1,
      get?_write_of_kept nodup' present left (not_or.1 stays).1, get?_write_of_outside nodup apart]

theorem Compatible.write_comm (nodup : d.elements.keys.Nodup) (h : d.Compatible v w) :
    ((d.write v).write w).Agrees ((d.write w).write v) := by
  have idle {v w : String × String} (h : d.Idle v w) :
      ((d.write v).write w).Agrees ((d.write w).write v) := by
    rw [write_of_absent h.1, write_of_absent (absent_write nodup h.1 h.2)]
    exact .refl _
  cases h with
  | apart h => exact Document.write_comm nodup h
  | drops h => exact write_comm_of_drops nodup h
  | dropped h => exact (write_comm_of_drops nodup h).symm
  | idle h => exact idle h
  | idled h => exact (idle h).symm

/-! ### A third write -/

theorem Settled.write_of_apart (nodup : d.elements.keys.Nodup) (apart : d.Apart u w)
    (settled : d.Settled w) : (d.write u).Settled w := by
  intro x assigned other
  rcases settled x assigned other with within | fresh
  · exact .inl ((within_write_of_apart nodup apart x).2 within)
  · have outside : ¬ d.Footprint u x := fun inside => apart x inside (.inr (.inr assigned))
    refine .inr ⟨absent_write nodup fresh.1 fun h => outside (.inr (.inr h)), fun y link => ?_⟩
    rcases parent?_write nodup link with own | old
    · exact outside (.inl own)
    · exact fresh.2 y old

theorem Settled.write_of_drops (nodup : d.elements.keys.Nodup) (h : d.Drops w u)
    (settled : d.Settled w) : (d.write u).Settled w := by
  have inner : d.has u.1 = true := h.inside.has
  intro x assigned other
  by_cases new : x ∈ Markup.assignedIds u.2 ∧ x ≠ u.1
  · exact .inl (within_write_of_assigned nodup inner h.rooted_inside h.settled new.1 new.2
      (.inr h.inside))
  have kept : x ∈ Markup.assignedIds u.2 → x = u.1 := by simpa using new
  have fresh_of (apart : x ≠ u.1) (h : d.Within x u.1 ∨ d.Fresh x) : (d.write u).Fresh x :=
    fresh_write nodup inner (fun assigned => apart (kept assigned)) apart h
  rcases settled x assigned other with within | fresh
  · by_cases inside : d.Within x u.1
    · refine .inr (fresh_of ?_ (.inl inside))
      rintro rfl
      exact h.rooted_inside inside
    · exact .inl ((within_write_of_kept nodup h.settled kept inside w.1).2 within)
  · refine .inr (fresh_of ?_ (.inr fresh))
    rintro rfl
    exact fresh.1 inner

theorem footprint_write_of_drops (nodup : d.elements.keys.Nodup) (h : d.Drops v u) {x : String}
    (inside : (d.write u).Footprint v x) : d.Footprint v x ∨ d.Footprint u x := by
  by_cases met : d.Footprint u x
  · exact .inr met
  left
  obtain ⟨-, outside, unassigned⟩ : x ≠ u.1 ∧ ¬ d.Within x u.1 ∧
      x ∉ Markup.assignedIds u.2 := by
    simpa [Footprint, not_or] using met
  rcases inside with own | nested | assigned
  · exact .inl own
  · exact .inr (.inl ((within_write_of_kept nodup h.settled
      (fun assigned => absurd assigned unassigned) outside v.1).1 nested))
  · exact .inr (.inr assigned)

/-- When another write is made, a compatible one does not meet it or goes on around
    it, or it has no element any more. -/
theorem Compatible.fate (nodup : d.elements.keys.Nodup) (present : d.has u.1 = true)
    (h : d.Compatible u v) : (d.Apart u v ∨ d.Drops v u) ∨ ¬ (d.write u).has v.1 = true := by
  cases h with
  | apart h => exact .inl (.inl h)
  | drops h => exact .inr (h.gone nodup)
  | dropped h => exact .inl (.inr h)
  | idle h => exact absurd present h.1
  | idled h => exact .inr (absent_write nodup h.1 h.2)

theorem Compatible.absent_write (nodup : d.elements.keys.Nodup) (present : d.has u.1 = true)
    (h : d.Compatible u v) (absent : ¬ d.has v.1 = true) : ¬ (d.write u).has v.1 = true := by
  rcases h.fate nodup present with (apart | drops) | gone
  · exact Document.absent_write nodup absent fun assigned =>
      apart v.1 (.inr (.inr assigned)) (.inl rfl)
  · exact absurd drops.present absent
  · exact gone

/-- A write whose element has gone is idle, unless the other one has been idle before. -/
theorem Compatible.write_of_gone (nodup : d.elements.keys.Nodup) (present : d.has u.1 = true)
    (h : d.Compatible v w) (other : d.Compatible u w) (gone : ¬ (d.write u).has v.1 = true) :
    (d.write u).Compatible v w := by
  cases h with
  | apart h => exact .idle ⟨gone, fun assigned => h v.1 (.inl rfl) (.inr (.inr assigned))⟩
  | drops h => exact .idle ⟨gone, h.unassigned⟩
  | dropped h => exact .idle ⟨gone, h.lost⟩
  | idle h => exact .idle ⟨gone, h.2⟩
  | idled h => exact .idled ⟨other.absent_write nodup present h.1, h.2⟩

theorem Drops.write (nodup : d.elements.keys.Nodup) (h : d.Drops v w)
    (outer : d.Apart u v ∨ d.Drops v u) (inner : d.Apart u w ∨ d.Drops w u) :
    (d.write u).Drops v w := by
  have settled : (d.write u).Settled w := by
    rcases inner with apart | drops
    · exact h.settled.write_of_apart nodup apart
    · exact h.settled.write_of_drops nodup drops
  rcases outer with apart | around
  · have within (x : String) : (d.write u).Within x v.1 ↔ d.Within x v.1 :=
      within_write_of_apart nodup apart x
    have same : (d.write u).elements.get? v.1 = d.elements.get? v.1 :=
      get?_write_of_outside nodup fun met => apart v.1 met (.inl rfl)
    refine ⟨?_, ?_, ?_, h.lost, settled⟩
    · rw [has_iff, same, ← has_iff]
      exact h.present
    · rw [within]
      exact h.rooted
    · rw [within]
      exact h.inside
  · have keeps {x : String} (unassigned : x ∉ Markup.assignedIds u.2)
        (outside : ¬ d.Within x u.1) : (d.write u).Within x v.1 ↔ d.Within x v.1 :=
      within_write_of_kept nodup around.settled (fun assigned => absurd assigned unassigned)
        outside v.1
    refine ⟨?_, ?_, ?_, h.lost, settled⟩
    · exact (has_write nodup around.inside.has v.1).2 (.inr ⟨around.present, around.apart⟩)
    · rw [keeps around.unassigned around.apart]
      exact h.rooted
    · rcases inner with apart | drops
      · have outside : ¬ d.Footprint u w.1 := fun met => apart w.1 met (.inl rfl)
        rw [keeps (fun assigned => outside (.inr (.inr assigned)))
          (fun within => outside (.inr (.inl within)))]
        exact h.inside
      · rw [keeps drops.unassigned drops.apart]
        exact h.inside

theorem Apart.write (nodup : d.elements.keys.Nodup) (h : d.Apart v w)
    (outer : d.Apart u v ∨ d.Drops v u) (inner : d.Apart u w ∨ d.Drops w u) :
    (d.write u).Apart v w := by
  have around {v w : String × String} (h : d.Apart v w) (around : d.Drops v u)
      (apart : d.Apart u w) : (d.write u).Apart v w := by
    intro x inV inW
    rw [footprint_write_of_apart nodup apart] at inW
    rcases footprint_write_of_drops nodup around inV with met | met
    · exact h x met inW
    · exact apart x met inW
  rcases outer with outer | outer <;> rcases inner with inner | inner
  · intro x inV inW
    rw [footprint_write_of_apart nodup outer] at inV
    rw [footprint_write_of_apart nodup inner] at inW
    exact h x inV inW
  · exact (around h.symm inner outer).symm
  · exact around h outer inner
  · exact absurd (.inr (.inl inner.inside)) (h u.1 (.inr (.inl outer.inside)))

/-- Writes that are compatible with a third one stay compatible when it is made. -/
theorem Compatible.write (nodup : d.elements.keys.Nodup) (first : d.Compatible u v)
    (second : d.Compatible u w) (h : d.Compatible v w) : (d.write u).Compatible v w := by
  by_cases present : d.has u.1 = true
  swap
  · rwa [write_of_absent present]
  rcases first.fate nodup present with outer | gone
  swap
  · exact h.write_of_gone nodup present second gone
  rcases second.fate nodup present with inner | gone
  swap
  · exact (h.symm.write_of_gone nodup present first gone).symm
  cases h with
  | apart h => exact .apart (h.write nodup outer inner)
  | drops h => exact .drops (h.write nodup outer inner)
  | dropped h => exact .dropped (h.write nodup inner outer)
  | idle h => exact .idle ⟨first.absent_write nodup present h.1, h.2⟩
  | idled h => exact .idled ⟨second.absent_write nodup present h.1, h.2⟩

end

/-! ### Many writes -/

/-- Writes that are compatible in pairs can be made in any order. -/
theorem writeAll_perm {d : Document} (nodup : d.elements.keys.Nodup)
    {ws ws' : List (String × String)} (perm : ws.Perm ws')
    (compatible : ws.Pairwise d.Compatible) : (d.writeAll ws).Agrees (d.writeAll ws') := by
  induction perm generalizing d with
  | nil => exact .refl d
  | @cons w ws ws' _ ih =>
    obtain ⟨first, rest⟩ := List.pairwise_cons.1 compatible
    refine ih (nodup_write nodup _) (rest.imp_of_mem fun {u v} hu hv h => ?_)
    exact (first u hu).write nodup (first v hv) h
  | swap v w ws =>
    obtain ⟨first, _⟩ := List.pairwise_cons.1 compatible
    have exchange := (first v List.mem_cons_self).write_comm nodup
    refine exchange.writeAll ?_ ?_ ws
    · exact nodup_write (nodup_write nodup _) _
    · exact nodup_write (nodup_write nodup _) _
  | trans first _ ih ih' =>
    exact (ih nodup compatible).trans
      (ih' nodup ((first.pairwise_iff fun h => h.symm).1 compatible))

end Document

end PageTree.Live
